import GoTreeSitter.Tree.EditCorrect

/-
  The nodes of an edited tree that are offered for reuse.

  Main declarations:
    * `ReuseCursor.reset`
    * `ReuseCursor.candidates`
    * `ReuseCursor.offered_mem`
    * `ReuseCursor.candidates_intact`
    * `ReuseCursor.oldByteForNew_clean`
    * `Tree.edits_wellFormed`

  A node without a mark was in front of every edit or behind it, with all below it. The cursor takes
  marks away when the whole text is the old one again.
-/

-- The Cursor

namespace GoTreeSitter

open List

variable (n : Node) (fuel : Nat) (start : UInt32)

structure ReuseFrame where
  node : Node
  underDirty : Bool

/-
  What the cursor is told about the language and the nodes. The first two are whether the tree was
  built by the forest fast path and is in a language that scans with context.
-/
structure ReuseOptions where
  forestFastPath : Bool
  scannerSensitive : Bool
  disableLeadingSplice : Bool
  hasError : Node → Bool

/- The top level keeps the children still to be offered. -/
structure ReuseCursor where
  options : ReuseOptions
  oldSource : Source
  newSource : Source
  edits : List InputEdit
  minEditAt : UInt32
  stack : List ReuseFrame
  next : Option Node
  hasTopLevel : Bool
  topLevel : List Node
  topLevelResumeByte : UInt32
  topLevelSpliceLeading : Bool
  cachedStart : Option UInt32
  cached : List Node

namespace ReuseCursor

def reset (options : ReuseOptions) (tree : Tree) (oldSource source : Source) : Option ReuseCursor :=
  tree.root.map fun root =>
    let minEditAt := (tree.edits.map (·.startByte)).min?.getD 0
    let start : ReuseCursor :=
      { options, oldSource, newSource := source,
        edits := tree.edits, minEditAt,
        stack := [⟨root, false⟩], next := none,
        hasTopLevel := false, topLevel := [],
        topLevelResumeByte := 0,
        topLevelSpliceLeading := false,
        cachedStart := none, cached := [] }
    let affected := root.children.dropWhile (·.endByte ≤ minEditAt)
    match affected with
    | [] => start
    | first :: trailing =>
      let leadingEligible := affected.length < root.children.length && !options.disableLeadingSplice
          && !(options.forestFastPath && options.scannerSensitive)
      if tree.edits ≠ [] ∧ (trailing ≠ [] ∨ leadingEligible) then
        { start with
          hasTopLevel := true
          topLevelResumeByte := first.endByte
          topLevelSpliceLeading := leadingEligible
          topLevel :=
            if leadingEligible then root.children
            else trailing }
      else start

variable (c : ReuseCursor)

def sourceBytesIdentical : Bool := c.oldSource == c.newSource

/- Edits are undone, the last one first. -/
def oldByteForNew (p : UInt32) : Option Nat :=
  let old := c.edits.foldr (fun e (cur : Option Int) => cur.bind fun cur =>
      if cur ≤ e.startByte.toNat then some cur
      else if cur ≥ e.newEndByte.toNat then
        some (cur - (e.newEndByte.toNat - e.oldEndByte.toNat))
      else none)
    (some p.toNat)
  old.bind fun cur =>
    if cur < 0 ∨ cur > c.oldSource.length then none
    else some cur.toNat

def nodeBytesUnchanged (stop : UInt32) : Bool :=
  if stop < start ∨ stop > UInt32.ofNat c.newSource.length then false
  else
    match c.oldByteForNew start, c.oldByteForNew stop with
    | some oldStart, some oldEnd =>
      oldStart ≤ oldEnd && Text.slice c.oldSource oldStart oldEnd ==
          Text.slice c.newSource start.toNat stop.toNat
    | _, _ => false

def rejectDirtyTopLevelPrefix : Bool :=
  c.options.forestFastPath && c.options.scannerSensitive && c.hasTopLevel && c.topLevelResumeByte >
    0 && start < c.topLevelResumeByte

def topLevelBlockCandidateBytes (stop : UInt32) : Bool := start ≥ c.topLevelResumeByte ||
    (c.topLevelSpliceLeading && stop < c.minEditAt)

/-
  The mark of a node as the cursor sees it. It is taken away if the texts are the same, each time it
  is read.
-/
def dirtyHere : Bool := n.dirty && !c.sourceBytesIdentical

/- What both kinds of candidates have in common. -/
def reusable : Bool := !c.options.hasError n && n.startByte < n.endByte && n.endByte ≤
    UInt32.ofNat c.newSource.length && !c.rejectDirtyTopLevelPrefix n.startByte && !c.dirtyHere n

def reusableIndexedEntry : Bool := (c.edits.isEmpty || c.nodeBytesUnchanged n.startByte
    n.endByte) && c.reusable n

def collectTopLevelCandidates : ReuseCursor × Bool :=
  let rest := c.topLevel.dropWhile (·.startByte < start)
  match rest with
  | [] => ({ c with topLevel := [] }, false)
  | n :: _ =>
    if n.startByte > start then
      ({ c with topLevel := rest }, false)
    else
      let here := rest.takeWhile (·.startByte = start)
      ({ c with
        topLevel := rest.dropWhile (·.startByte = start)
        cached := here.filter fun n =>
          c.topLevelBlockCandidateBytes n.startByte n.endByte && c.reusableIndexedEntry n }, true)

/- The first number bounds the nodes that are visited. -/
def advance : Nat → ReuseCursor → ReuseCursor × Option Node
  | 0, c => (c, none)
  | fuel + 1, c =>
    match c.stack with
    | [] => (c, none)
    | frame :: stack =>
      let cur := frame.node
      let children := cur.children.filter fun child =>
        c.cachedStart.all (child.endByte > ·)
      let c' := { c with
        stack := children.map
          (⟨·, frame.underDirty || c.dirtyHere cur⟩) ++ stack }
      if (frame.underDirty && !c.edits.isEmpty && !c.nodeBytesUnchanged cur.startByte
          cur.endByte) || !c.reusable cur then
        advance fuel c'
      else (c', some cur)

def peek : ReuseCursor × Option Node :=
  match c.next with
  | some n => (c, some n)
  | none =>
    let (c', n) := c.advance fuel
    ({ c' with next := n }, n)

/-
  Nodes are passed over up to the first one at the start,
  and taken up to the first one not at the start.
-/
def collectAt : Nat → Bool → ReuseCursor → ReuseCursor
  | 0, _, c => c
  | steps + 1, found, c =>
    match c.peek fuel with
    | (c, none) => c
    | (c, some n) =>
      if n.startByte = start then
        collectAt steps true { c with
          next := none, cached := c.cached ++ [n] }
      else if found || n.startByte > start then c
      else collectAt steps false { c with
          next := none }

def candidates : ReuseCursor × List Node :=
  if c.cachedStart.any (start < ·) then (c, [])
  else if c.cachedStart = some start then (c, c.cached)
  else
    let c := { c with cached := [], cachedStart := some start }
    let (c, found) := c.collectTopLevelCandidates start
    let c := if found then c
      else collectAt fuel start fuel false c
    (c, c.cached)

/- All that is offered by calls in a row. -/
def offered : List UInt32 → ReuseCursor → List Node
  | [], _ => []
  | start :: starts, c => (c.candidates fuel start).2 ++ offered starts (c.candidates fuel start).1

end ReuseCursor

-- Nodes Behind and in Front of Edits

open Text

/- The edits describe the step from one text to another. -/
inductive EditsTo : Source → List InputEdit → Source → Prop where
  | nil (text : Source) : EditsTo text [] text
  | cons {text bytes final : Source} {edit : InputEdit} {edits : List InputEdit}
      (hEdit : edit.Describes text bytes)
      (hShort : (edit.applyTo text bytes).length < 2 ^ 32)
      (hRest : EditsTo (edit.applyTo text bytes) edits final) :
      EditsTo text (edit :: edits) final

/- Where a text goes that every edit leaves alone. -/
inductive Moves : List InputEdit → Extent → Extent → Prop where
  | nil (x : Extent) : Moves [] x x
  | before {edit : InputEdit} {edits : List InputEdit} {x y : Extent}
      (hStop : x.stop ≤ edit.startByte.toNat)
      (hRest : Moves edits x y) :
      Moves (edit :: edits) x y
  | after {edit : InputEdit} {edits : List InputEdit} {x y : Extent}
      (hStart : edit.oldEndByte.toNat ≤ x.start)
      (hRest : Moves edits (x.shift edit.oldEndByte.toNat edit.newEndByte.toNat) y) :
      Moves (edit :: edits) x y

/- A text that is left alone is found where it went. -/
lemma Moves.slice_eq {text final : Source} {edits : List InputEdit} {x y : Extent}
    (hMoves : Moves edits x y) (hEdits : EditsTo text edits final) (hx : x.Valid) :
    slice final y.start y.stop = slice text x.start x.stop := by
  induction hMoves generalizing text with
  | nil x =>
    cases hEdits
    rfl
  | before hStop _ ih =>
    cases hEdits with
    | cons hEdit _ hRest =>
      rw [ih hRest hx]
      apply slice_splice_before hStop
      exact le_trans hEdit.start_le hEdit.oldEnd_le
  | after hStart _ ih =>
    cases hEdits with
    | cons hEdit _ hRest =>
      rw [ih hRest (Extent.shift_valid hx)]
      rw [Extent.shift, hEdit.newEnd_eq]
      apply slice_splice_after hStart hx
      exact le_trans hEdit.start_le hEdit.oldEnd_le

lemma Moves.cons {edit : InputEdit} {edits : List InputEdit} {x y z : Extent}
    (hFirst : Moves [edit] x y) (hRest : Moves edits y z) :
    Moves (edit :: edits) x z := by
  cases hFirst with
  | before hStop hNil =>
    cases hNil
    exact .before hStop hRest
  | after hStart hNil =>
    cases hNil
    exact .after hStart hRest

namespace Node

/- The node at the end of a path of child numbers. -/
def descend : Node → List Nat → Option Node
  | n, [] => some n
  | n, i :: path => n.children[i]?.bind (·.descend path)

lemma descend_append (path below : List Nat) :
    n.descend (path ++ below) = (n.descend path).bind (·.descend below) := by
  induction path generalizing n with
  | nil => rfl
  | cons i path ih =>
    simp only [cons_append, Node.descend, Option.bind_assoc]
    congr
    funext child
    exact ih child

variable {text newText : Source} {edit : InputEdit} {path : List Nat} {edits : List InputEdit}
  {n m : Node}

/- A node below another one is inside it. -/
lemma WellFormed.descend {n c : Node} (hn : n.WellFormed text) (hAt : n.descend path = some c) :
    c.WellFormed text ∧ c.extent.Inside n.extent := by
  induction path generalizing n with
  | nil =>
    cases hAt
    exact ⟨hn, le_rfl, le_rfl⟩
  | cons i path ih =>
    obtain ⟨child, hChild, hRest⟩ := Option.bind_eq_some_iff.mp hAt
    have hMem := mem_of_getElem? hChild
    cases hn with
    | mk hSpan hKind hInside hOrder hChildren =>
      have hIn := ih (hChildren child hMem) hRest
      have hOut := hInside child hMem
      exact ⟨hIn.1, hOut.1.trans hIn.2.1, hIn.2.2.trans hOut.2⟩

/- All nodes of a moved subtree are moved. -/
lemma WellFormed.descend_shift {n : Node} (hn : n.WellFormed text) (d : EditDelta)
    (path : List Nat) :
    (n.shiftSubtreeAfterEdit d).descend path = (n.descend path).map (shiftSubtreeAfterEdit d) := by
  induction path generalizing n with
  | nil => rfl
  | cons i path ih =>
    cases hn with
    | @mk kind span dirty children hSpan hKind hInside hOrder hChildren =>
      rw [shiftSubtreeAfterEdit, shiftChildrenAfterEdit_eq_map, children_eq _ hKind]
      simp only [Node.descend, Node.children, getElem?_map]
      cases hChild : children[i]? with
      | none => rfl
      | some child => exact ih (hChildren child (mem_of_getElem? hChild))

/- A node that edits did not mark, and what became of it. -/
structure Kept (edits : List InputEdit) (n m : Node) : Prop where
  clean : n.dirty = false
  moves : ∀ below d, m.descend below = some d →
    ∃ c, n.descend below = some c ∧ Moves edits c.extent d.extent

lemma Kept.cons {k n m : Node} (hFirst : Kept [edit] k n) (hRest : Kept edits n m) :
    Kept (edit :: edits) k m := by
  refine ⟨hFirst.clean, ?_⟩
  intro below d hBelow
  obtain ⟨c, hc, hThen⟩ := hRest.moves below d hBelow
  obtain ⟨b, hb, hMoves⟩ := hFirst.moves below c hc
  exact ⟨b, hb, hMoves.cons hThen⟩

lemma kept_of_outside (hEdit : edit.Describes text newText)
    (hShort : (edit.applyTo text newText).length < 2 ^ 32) (hn : n.WellFormed text)
    (hOut : ¬ n.extent.Meets edit.startByte.toNat edit.oldEndByte.toNat)
    (hAt : (n.editNodeWithDelta (.ofEdit edit)).descend path = some m) :
    ∃ k, n.descend path = some k ∧ (m.dirty = false → Kept [edit] k m) := by
  by_cases hStop : n.extent.stop ≤ edit.startByte.toNat
  · have hBefore : n.endByte ≤ (EditDelta.ofEdit edit).edit.startByte :=
      UInt32.le_iff_toNat_le.mpr hStop
    rw [editNodeWithDelta_before hBefore] at hAt
    have hIn := hn.descend hAt
    refine ⟨m, hAt, fun hClean => ⟨hClean, ?_⟩⟩
    intro below d hBelow
    have hDeep := (hIn.1.descend hBelow).2.2
    refine ⟨d, hBelow, .before ?_ (.nil _)⟩
    exact le_trans (hDeep.trans hIn.2.2) hStop
  have hStart : edit.oldEndByte.toNat ≤ n.extent.start := by
    unfold Extent.Meets at hOut
    omega
  rw [editNodeWithDelta_eq_shift hEdit hn hStop hStart, hn.descend_shift] at hAt
  obtain ⟨k, hk, rfl⟩ := Option.map_eq_some_iff.mp hAt
  have hIn := hn.descend hk
  refine ⟨k, hk, fun hClean => ⟨?_, ?_⟩⟩
  · cases k
    exact hClean
  intro below d hBelow
  rw [hIn.1.descend_shift] at hBelow
  obtain ⟨c, hc, rfl⟩ := Option.map_eq_some_iff.mp hBelow
  have hDeep := hIn.1.descend hc
  have hBehind := le_trans (hStart.trans hIn.2.1) hDeep.2.1
  refine ⟨c, hc, .after hBehind ?_⟩
  rw [(shiftSubtreeAfterEdit_wellFormed hEdit hShort hDeep.1 hBehind).1]
  exact .nil _

lemma WellFormed.edit_of_meets {n : Node} (hn : n.WellFormed text)
    (hMeets : n.extent.Meets edit.startByte.toNat edit.oldEndByte.toNat) :
    (n.editNodeWithDelta (.ofEdit edit)).dirty ∧
      (n.editNodeWithDelta (.ofEdit edit)).children =
        n.children.map (editNodeWithDelta (.ofEdit edit)) := by
  cases hn with
  | @mk kind span dirty children _ hKind _ hOrder hChildren =>
    have hSpan : span.extent.Meets edit.startByte.toNat edit.oldEndByte.toNat := hMeets
    rw [editNodeWithDelta_overlap hSpan hKind (fun c hc => (hChildren c hc).span_over.valid) hOrder]
    exact ⟨rfl, rfl⟩

lemma kept_of_edit (hEdit : edit.Describes text newText)
    (hShort : (edit.applyTo text newText).length < 2 ^ 32) (hn : n.WellFormed text)
    (hAt : (n.editNodeWithDelta (.ofEdit edit)).descend path = some m) :
    ∃ k, n.descend path = some k ∧ (m.dirty = false → Kept [edit] k m) := by
  -- The nodes that meet the edit are those above the rest.
  induction path generalizing n with
  | nil =>
    by_cases hMeets : n.extent.Meets edit.startByte.toNat edit.oldEndByte.toNat
    · cases hAt
      refine ⟨n, rfl, fun hClean => ?_⟩
      rw [(hn.edit_of_meets hMeets).1] at hClean
      cases hClean
    · exact kept_of_outside hEdit hShort hn hMeets hAt
  | cons i path ih =>
    by_cases hMeets : n.extent.Meets edit.startByte.toNat edit.oldEndByte.toNat
    · rw [descend, (hn.edit_of_meets hMeets).2, getElem?_map] at hAt
      cases hc : n.children[i]? with
      | none => simp [hc] at hAt
      | some c =>
        rw [hc] at hAt
        have hChild : n.descend [i] = some c := by
          rw [descend, hc]
          rfl
        rw [descend, hc]
        exact ih (hn.descend hChild).1 hAt
    · exact kept_of_outside hEdit hShort hn hMeets hAt

lemma kept_of_edits {final : Source} (hEdits : EditsTo text edits final) (hn : n.WellFormed text)
    (hAt : (edits.foldl (fun n edit => n.editNodeWithDelta (.ofEdit edit)) n).descend path =
      some m) :
    ∃ k, n.descend path = some k ∧ (m.dirty = false → Kept edits k m) := by
  induction hEdits generalizing n with
  | nil text =>
    refine ⟨m, hAt, fun hClean => ⟨hClean, ?_⟩⟩
    exact fun below d hBelow => ⟨d, hBelow, .nil _⟩
  | cons hEdit hShort _ ih =>
    obtain ⟨mid, hMid, hRest⟩ := ih (editNodeWithDelta_wellFormed hEdit hShort hn).2.1 hAt
    obtain ⟨k, hk, hFirst⟩ := kept_of_edit hEdit hShort hn hMid
    refine ⟨k, hk, fun hClean => ?_⟩
    have hThen := hRest hClean
    exact (hFirst hThen.clean).cons hThen

end Node

-- What Is Offered

/- A node of the tree, unmarked or over the old text. -/
structure Offered (root : Node) (text final : Source) (n : Node) : Prop where
  isBelow : ∃ path, root.descend path = some n
  clean : n.dirty = false ∨ text = final

namespace ReuseCursor

/- The cursor has nodes of the tree, and offers good ones. -/
structure Over (root : Node) (text final : Source) (c : ReuseCursor) : Prop where
  old : c.oldSource = text
  new : c.newSource = final
  stack : ∀ frame ∈ c.stack, ∃ path, root.descend path = some frame.node
  topLevel : ∀ n ∈ c.topLevel, ∃ path, root.descend path = some n
  next : ∀ n, c.next = some n → Offered root text final n
  cached : ∀ n ∈ c.cached, Offered root text final n

variable {root : Node} {text final : Source} {c : ReuseCursor}

lemma Over.offered_of_reusable (hOver : c.Over root text final) {n : Node}
    (hBelow : ∃ path, root.descend path = some n) (hReusable : c.reusable n) :
    Offered root text final n := by
  refine ⟨hBelow, ?_⟩
  rw [← hOver.old, ← hOver.new]
  simp only [reusable, dirtyHere, sourceBytesIdentical, Bool.and_eq_true, Bool.not_eq_true',
    Bool.and_eq_false_iff, Bool.not_eq_false'] at hReusable
  exact hReusable.2.imp_right eq_of_beq

lemma below_of_mem_children {n child : Node} (hBelow : ∃ path, root.descend path = some n)
    (hChild : child ∈ n.children) :
    ∃ path, root.descend path = some child := by
  obtain ⟨path, hPath⟩ := hBelow
  obtain ⟨i, hi⟩ := mem_iff_getElem?.mp hChild
  refine ⟨path ++ [i], ?_⟩
  rw [Node.descend_append, hPath]
  change n.children[i]?.bind _ = _
  rw [hi]
  rfl

lemma Over.advance (hOver : c.Over root text final) :
    (c.advance fuel).1.Over root text final ∧
      ∀ n, (c.advance fuel).2 = some n → Offered root text final n := by
  induction fuel generalizing c with
  | zero => exact ⟨hOver, fun n h => by cases h⟩
  | succ fuel ih =>
    unfold ReuseCursor.advance
    cases hStack : c.stack with
    | nil => exact ⟨hOver, fun n h => by cases h⟩
    | cons frame stack =>
      have hFrames := hOver.stack
      rw [hStack] at hFrames
      have hTop := hFrames frame mem_cons_self
      -- The children take the place of the node.
      have hPushed : ∀ children mark, children ⊆ frame.node.children → { c with
          stack := children.map (ReuseFrame.mk · mark) ++
            stack }.Over root text final := by
        intro children mark hSub
        refine ⟨hOver.old, hOver.new, ?_, hOver.topLevel, hOver.next, hOver.cached⟩
        intro f hf
        rcases mem_append.mp hf with hNew | hOld
        · obtain ⟨child, hChild, rfl⟩ := mem_map.mp hNew
          exact below_of_mem_children hTop (hSub hChild)
        · exact hFrames f (mem_cons_of_mem _ hOld)
      dsimp only
      split_ifs with hAccepted
      · exact ih (hPushed _ _ (filter_subset_self _))
      refine ⟨hPushed _ _ (filter_subset_self _), ?_⟩
      intro n hn
      cases hn
      apply hOver.offered_of_reusable hTop
      simp only [Bool.or_eq_true, not_or] at hAccepted
      simpa using hAccepted.2

lemma Over.peek (hOver : c.Over root text final) :
    (c.peek fuel).1.Over root text final ∧
      ∀ n, (c.peek fuel).2 = some n → Offered root text final n := by
  unfold ReuseCursor.peek
  cases hNext : c.next with
  | some n =>
    refine ⟨hOver, fun n' hn' => ?_⟩
    cases hn'
    exact hOver.next n hNext
  | none =>
    have hMore := hOver.advance fuel
    exact ⟨{ hMore.1 with next := hMore.2 }, hMore.2⟩

lemma Over.collectAt (steps : Nat) (found : Bool) (hOver : c.Over root text final) :
    (c.collectAt fuel start steps found).Over root text final := by
  induction steps generalizing c found with
  | zero => exact hOver
  | succ steps ih =>
    have hPeek := hOver.peek fuel
    unfold ReuseCursor.collectAt
    split
    · rename_i hEq
      rw [hEq] at hPeek
      exact hPeek.1
    rename_i c' n hEq
    rw [hEq] at hPeek
    split
    · refine ih true { hPeek.1 with
        next := fun n h => by cases h
        cached := ?_ }
      intro n' hn'
      rcases mem_append.mp hn' with hOld | hNew
      · exact hPeek.1.cached n' hOld
      · cases mem_singleton.mp hNew
        exact hPeek.2 n rfl
    · split
      · exact hPeek.1
      · exact ih false { hPeek.1 with
          next := fun n h => by cases h }

lemma Over.collectTopLevelCandidates (hOver : c.Over root text final) :
    (c.collectTopLevelCandidates start).1.Over root text final := by
  have hRest :
      ∀ n ∈ c.topLevel.dropWhile (·.startByte < start), ∃ path, root.descend path = some n :=
    fun n hn => hOver.topLevel n ((dropWhile_sublist _).subset hn)
  unfold ReuseCursor.collectTopLevelCandidates
  dsimp only
  split
  · exact { hOver with topLevel := fun n h => by cases h }
  split
  · exact { hOver with topLevel := hRest }
  refine { hOver with topLevel := ?_, cached := ?_ }
  · exact fun n hn => hRest n ((dropWhile_sublist _).subset hn)
  intro n hn
  simp only [mem_filter, Bool.and_eq_true, reusableIndexedEntry] at hn
  exact hOver.offered_of_reusable (hRest n ((takeWhile_sublist _).subset hn.1)) hn.2.2.2

lemma Over.candidates (hOver : c.Over root text final) :
    (c.candidates fuel start).1.Over root text final ∧
      ∀ n ∈ (c.candidates fuel start).2, Offered root text final n := by
  unfold ReuseCursor.candidates
  split
  · exact ⟨hOver, fun n h => by cases h⟩
  split
  · exact ⟨hOver, hOver.cached⟩
  have hTop := (show { c with
      cached := [], cachedStart := some start }.Over root text final from
    { hOver with cached := fun n h => by cases h
      }).collectTopLevelCandidates start
  dsimp only
  split
  · exact ⟨hTop, hTop.cached⟩
  · have hAll := hTop.collectAt fuel start fuel false
    exact ⟨hAll, hAll.cached⟩

lemma Over.offered (starts : List UInt32) (hOver : c.Over root text final) :
    ∀ n ∈ c.offered fuel starts, Offered root text final n := by
  induction starts generalizing c with
  | nil => exact fun n h => by cases h
  | cons start starts ih =>
    have hCall := hOver.candidates fuel start
    intro n hn
    rcases mem_append.mp hn with hNow | hLater
    · exact hCall.2 n hNow
    · exact ih hCall.1 n hLater

lemma over_of_reset {options : ReuseOptions} {tree : Tree} (hRoot : tree.root = some root)
    (hReset : reset options tree text final = some c) :
    c.Over root text final := by
  have hTop : ∀ n ∈ root.children, ∃ path, root.descend path = some n :=
    fun n hn => below_of_mem_children ⟨[], rfl⟩ hn
  have hAffected : ∀ {f first trailing},
      root.children.dropWhile f = first :: trailing → ∀ n ∈ trailing, n ∈ root.children :=
    fun h n hn => (dropWhile_sublist _).subset (h ▸ mem_cons_of_mem _ hn)
  rw [reset, hRoot, Option.map_some, Option.some.injEq] at hReset
  dsimp only at hReset
  have hStart : ∀ frame ∈ [ReuseFrame.mk root false], ∃ path,
      root.descend path = some frame.node := by
    intro frame hFrame
    rw [mem_singleton.mp hFrame]
    exact ⟨[], rfl⟩
  split at hReset
  · subst hReset
    exact ⟨rfl, rfl, hStart, by simp, by simp, by simp⟩
  rename_i first trailing hDrop
  split at hReset
  · subst hReset
    refine ⟨rfl, rfl, hStart, ?_, by simp, by simp⟩
    intro n hn
    split at hn
    · exact hTop n hn
    · exact hTop n (hAffected hDrop n hn)
  · subst hReset
    exact ⟨rfl, rfl, hStart, by simp, by simp, by simp⟩

end ReuseCursor

/-
  A node covers the text it covered before the edits, where the edits put it or, if the text is the
  old one, where it was.
-/
structure Node.Intact (edits : List InputEdit) (text final : Source) (n m : Node) : Prop where
  text_eq : Text.slice final m.extent.start m.extent.stop =
    Text.slice text n.extent.start n.extent.stop
  place : Moves edits n.extent m.extent ∨ (final = text ∧ m.extent = n.extent)

lemma Tree.edits_root {t : Tree} {root : Node} {text final : Source} {edits : List InputEdit}
    (hEdits : EditsTo text edits final) (hRoot : t.root = some root) (hn : root.WellFormed text) :
    (edits.foldl Tree.edit t).root =
      some (edits.foldl (fun n edit => n.editNodeWithDelta (.ofEdit edit)) root) := by
  induction hEdits generalizing t root with
  | nil text => exact hRoot
  | cons hEdit hShort _ ih =>
    exact ih (Tree.edit_root hRoot hn hEdit) (Node.editNodeWithDelta_wellFormed hEdit hShort hn).2.1

/-
  If the edits give a text other than the old one, or give each marked node its old extent back,
  then the nodes that are offered are intact, with all below them.
-/
theorem ReuseCursor.candidates_intact
    (options : ReuseOptions)
    {root : Node}
    {text final : Source}
    {edits : List InputEdit}
    (hRoot : root.WellFormed text)
    (hEdits : EditsTo text edits final)
    {root' : Node}
    (hRoot' : (edits.foldl Tree.edit ⟨some root, []⟩).root = some root')
    (hBack : text ≠ final ∨
      ∀ path n m,
        root.descend path = some n → root'.descend path = some m → m.dirty = true →
          m.extent = n.extent)
    {c : ReuseCursor}
    (hReset : reset options (edits.foldl Tree.edit ⟨some root, []⟩) text final = some c)
    (fuel : Nat)
    (starts : List UInt32) :
    ∀ m ∈ c.offered fuel starts, ∃ path n,
      root.descend path = some n ∧ root'.descend path = some m ∧
        ∀ below d,
          m.descend below = some d →
            ∃ k, n.descend below = some k ∧ Node.Intact edits text final k d := by
  have hNew := @Tree.edits_root ⟨some root, []⟩ _ _ _ _ hEdits rfl hRoot
  rw [hRoot', Option.some.injEq] at hNew
  intro m hm
  obtain ⟨⟨path, hPath⟩, hClean⟩ := (over_of_reset hRoot' hReset).offered fuel starts m hm
  have hKept : ∀ path d,
      root'.descend path = some d →
        ∃ k, root.descend path = some k ∧ (d.dirty = false → Node.Kept edits k d) := by
    rw [hNew]
    exact fun path d => Node.kept_of_edits hEdits hRoot
  obtain ⟨n, hn, hMoved⟩ := hKept path m hPath
  refine ⟨path, n, hn, hPath, ?_⟩
  intro below d hBelow
  have hIntact : ∀ k,
      k.WellFormed text → Moves edits k.extent d.extent → Node.Intact edits text final k d :=
      fun k hk hMoves => ⟨hMoves.slice_eq hEdits hk.span_over.valid, .inl hMoves⟩
  have hWell := (hRoot.descend hn).1
  rcases hClean with hClean | rfl
  · obtain ⟨k, hk, hMoves⟩ := (hMoved hClean).moves below d hBelow
    exact ⟨k, hk, hIntact k (hWell.descend hk).1 hMoves⟩
  -- A mark that was taken away is on an old extent.
  have hDeep : root'.descend (path ++ below) = some d := by
    rw [Node.descend_append, hPath]
    exact hBelow
  obtain ⟨k, hk, hKeptBelow⟩ := hKept _ d hDeep
  have hkBelow : n.descend below = some k := by
    rw [Node.descend_append, hn] at hk
    exact hk
  refine ⟨k, hkBelow, ?_⟩
  cases hDirty : d.dirty with
  | false =>
    obtain ⟨k', hk', hMoves⟩ := (hKeptBelow hDirty).moves [] d rfl
    cases hk'
    exact hIntact k (hWell.descend hkBelow).1 hMoves
  | true =>
    have hSame := (hBack.resolve_left (· rfl)) _ k d hk hDeep hDirty
    exact ⟨by rw [hSame], .inr ⟨rfl, hSame⟩⟩

/- A word of three letters. -/
def word : Node := .mk .node ⟨0, 3, ⟨0, 0⟩, ⟨0, 3⟩⟩ false []

lemma word_wellFormed : word.WellFormed [97, 98, 99] :=
  .mk (by constructor <;> decide)
    (by decide) (by decide) (by decide) (by simp)

def plainOptions : ReuseOptions where
  forestFastPath := false
  scannerSensitive := false
  disableLeadingSplice := false
  hasError _ := false

/- The blank between two words is doubled, then two letters are put before them. -/
def moveWords : List InputEdit :=
  [⟨2, 3, 4, ⟨0, 2⟩, ⟨0, 3⟩, ⟨0, 4⟩⟩, ⟨0, 0, 2, ⟨0, 0⟩, ⟨0, 0⟩, ⟨0, 2⟩⟩]

lemma moveWords_editsTo :
    EditsTo [97, 98, 32, 99, 100] moveWords [120, 121, 97, 98, 32, 32, 99, 100] :=
  @EditsTo.cons _ [32, 32] _ _ _ (by constructor <;> decide) (by decide)
    (@EditsTo.cons _ [120, 121] _ _ _ (by constructor <;> decide) (by decide) (.nil _))

/- Both words are offered where they are now. -/
theorem candidates_intact_moved :
    ∃ c,
      ReuseCursor.reset plainOptions (moveWords.foldl Tree.edit ⟨some Node.twoWords, []⟩)
        [97, 98, 32, 99, 100] [120, 121, 97, 98, 32, 32, 99, 100] = some c ∧
        (c.offered 20 [2, 6]).map Node.extent = [⟨2, 4⟩, ⟨6, 8⟩] ∧
        ∀ m ∈ c.offered 20 [2, 6], ∃ path n,
          Node.twoWords.descend path = some n ∧
            n.Intact moveWords [97, 98, 32, 99, 100] [120, 121, 97, 98, 32, 32, 99, 100] m := by
  refine ⟨_, rfl, rfl, fun m hm => ?_⟩
  obtain ⟨path, n, hn, -, hAll⟩ := ReuseCursor.candidates_intact plainOptions
    Node.twoWords_wellFormed moveWords_editsTo rfl (.inl (by decide)) rfl 20 [2, 6] m hm
  obtain ⟨k, hk, hIntact⟩ := hAll [] m rfl
  cases hk
  exact ⟨path, _, hn, hIntact⟩

/- The last two letters are taken away and put back. -/
def cutTail : InputEdit := ⟨1, 3, 1, ⟨0, 1⟩, ⟨0, 3⟩, ⟨0, 1⟩⟩

def putTail : InputEdit := ⟨1, 1, 3, ⟨0, 1⟩, ⟨0, 1⟩, ⟨0, 3⟩⟩

/- The word is offered with its first letter only. -/
theorem candidates_truncated :
    word.WellFormed [97, 98, 99] ∧ EditsTo [97, 98, 99] [cutTail, putTail] [97, 98, 99] ∧
      ∃ c,
        ReuseCursor.reset plainOptions ([cutTail, putTail].foldl Tree.edit ⟨some word, []⟩)
          [97, 98, 99] [97, 98, 99] = some c ∧
          ∃ m ∈ c.offered 2 [0],
            m.extent = ⟨0, 1⟩ ∧
              ∀ path n,
                word.descend path = some n →
                  ¬ n.Intact [cutTail, putTail] [97, 98, 99] [97, 98, 99] m := by
  refine ⟨word_wellFormed, ?_, _, rfl, _, mem_singleton.mpr rfl, rfl, ?_⟩
  · refine @EditsTo.cons _ [] _ cutTail _ (by constructor <;> decide) (by decide) ?_
    exact @EditsTo.cons _ [98, 99] _ putTail [] (by constructor <;> decide) (by decide) (.nil _)
  intro path n hn hIntact
  cases path with
  | nil =>
    cases hn
    exact absurd hIntact.text_eq (by decide)
  | cons i path => cases hn

-- Places Before the Edits

/- One edit undone, as `oldByteForNew` does it. -/
def undoEdit (e : InputEdit) (cur : Int) : Option Int :=
  if cur ≤ e.startByte.toNat then some cur
  else if cur ≥ e.newEndByte.toNat then some (cur - (e.newEndByte.toNat - e.oldEndByte.toNat))
  else none

/- The edit only takes text away, up to the start of the node. -/
def InputEdit.CutsUpTo (e : InputEdit) (n : Node) : Prop :=
  e.newEndByte = e.startByte ∧ e.startByte < e.oldEndByte ∧ n.startByte = e.oldEndByte

/- No edit cuts up to the node at a path. -/
def Tree.Uncut (path : List Nat) : Tree → List InputEdit → Prop
  | _, [] => True
  | t, e :: edits => (∀ n, t.root.bind (·.descend path) = some n → ¬ e.CutsUpTo n) ∧
      Uncut path (t.edit e) edits

variable {text final bytes : Source} {root root' n m : Node} {e : InputEdit} {path : List Nat}

lemma undoEdit_shift (hEdit : e.Describes text bytes) {p : Nat} (hp : e.oldEndByte.toNat ≤ p)
    (hCut : e.newEndByte.toNat = e.startByte.toNat → p = e.oldEndByte.toNat →
      e.oldEndByte.toNat ≤ e.startByte.toNat) :
    undoEdit e (p - e.oldEndByte.toNat + e.newEndByte.toNat : Nat) = some (p : Int) := by
  have hOrder := hEdit.start_le
  have hNew := hEdit.newEnd_eq
  unfold undoEdit
  split
  · congr 1
    omega
  rw [if_pos (by omega)]
  congr 1
  omega

lemma undoEdit_of_moves (hEdit : e.Describes text bytes) (hn : n.WellFormed text)
    (hMoves : Moves [e] n.extent m.extent) (hCut : ¬ e.CutsUpTo n) :
    undoEdit e m.startByte.toNat = some (n.startByte.toNat : Int) ∧
      undoEdit e m.endByte.toNat = some (n.endByte.toNat : Int) := by
  have hOrder : n.extent.start ≤ n.extent.stop := hn.span_over.valid
  show undoEdit e m.extent.start = some (n.extent.start : Int) ∧
    undoEdit e m.extent.stop = some (n.extent.stop : Int)
  generalize m.extent = y at hMoves
  cases hMoves with
  | before hStop hNil =>
    cases hNil
    exact ⟨if_pos (mod_cast hOrder.trans hStop), if_pos (mod_cast hStop)⟩
  | after hStart hNil =>
    cases hNil
    have hStarts : n.startByte.toNat = n.extent.start := rfl
    simp only [InputEdit.CutsUpTo, ← UInt32.toNat_inj, UInt32.lt_iff_toNat_lt] at hCut
    exact ⟨undoEdit_shift hEdit hStart (by omega),
      undoEdit_shift hEdit (hStart.trans hOrder) (by omega)⟩

/- All edits undone lead back to the node. -/
lemma undo_edits
    {edits : List InputEdit}
    (hEdits : EditsTo text edits final)
    {t : Tree}
    (hRoot : t.root = some root)
    (hWell : root.WellFormed text)
    (hUncut : t.Uncut path edits)
    (hRoot' : (edits.foldl Tree.edit t).root = some root')
    (hm : root'.descend path = some m)
    (hClean : m.dirty = false) :
    ∃ n,
      root.descend path = some n ∧ n.dirty = false ∧
        ∀ side ∈ [Node.startByte, Node.endByte],
          edits.foldr (fun e cur => cur.bind (undoEdit e)) (some ((side m).toNat : Int)) =
            some ((side n).toNat : Int) := by
  induction hEdits generalizing t root with
  | nil text =>
    rw [foldl_nil, hRoot] at hRoot'
    cases hRoot'
    exact ⟨m, hm, hClean, fun _ _ => rfl⟩
  | cons hEdit hShort _ ih =>
    rcases ih (Tree.edit_root hRoot hWell hEdit) (Node.editNodeWithDelta_wellFormed hEdit hShort
      hWell).2.1 hUncut.2 hRoot' with ⟨k, hk, hkClean, hBack⟩
    rcases Node.kept_of_edit hEdit hShort hWell hk with ⟨n, hn, hKept⟩
    rcases (hKept hkClean).moves [] k rfl with ⟨_, hn', hMoves⟩
    cases hn'
    have hUndo := undoEdit_of_moves hEdit (hWell.descend hn).1 hMoves (hUncut.1 n (by
      rw [hRoot]
      exact hn))
    refine ⟨n, hn, (hKept hkClean).clean, ?_⟩
    intro side hSide
    rw [foldr_cons, hBack side hSide]
    rcases mem_pair.mp hSide with rfl | rfl
    · exact hUndo.1
    · exact hUndo.2

/-
  In a well-formed tree a node without a mark is led back to where it was, if no edit on the way
  only took text away up to the start of the node.
-/
theorem ReuseCursor.oldByteForNew_clean
    (c : ReuseCursor)
    {t : Tree}
    (hEdits : EditsTo c.oldSource c.edits final)
    (hRoot : t.root = some root)
    (hWell : root.WellFormed c.oldSource)
    (hRoot' : (c.edits.foldl Tree.edit t).root = some root')
    (hn : root.descend path = some n)
    (hm : root'.descend path = some m)
    (hClean : m.dirty = false)
    (hUncut : t.Uncut path c.edits) :
    c.oldByteForNew m.startByte = some n.startByte.toNat ∧
      c.oldByteForNew m.endByte = some n.endByte.toNat := by
  rcases undo_edits hEdits hRoot hWell hUncut hRoot' hm hClean with ⟨k, hk, -, hBack⟩
  rw [hn] at hk
  cases hk
  have hOver := (hWell.descend hn).1.span_over
  have hSide : ∀ side ∈ [Node.startByte, Node.endByte],
      (side n).toNat ≤ c.oldSource.length → c.oldByteForNew (side m) = some (side n).toNat := by
    intro side hMem hFits
    refine (congrArg (Option.bind · _) (hBack side hMem)).trans ?_
    rw [Option.bind_some, if_neg (by omega), Int.toNat_natCast]
  exact ⟨hSide _ (by simp) (hOver.valid.trans hOver.stop_le), hSide _ (by simp) hOver.stop_le⟩

/- The second word is led back over both edits. -/
theorem oldByteForNew_clean_moved :
    ∃ c,
      ReuseCursor.reset plainOptions (moveWords.foldl Tree.edit ⟨some Node.twoWords, []⟩)
        [97, 98, 32, 99, 100] [120, 121, 97, 98, 32, 32, 99, 100] = some c ∧
        c.oldByteForNew 6 = some 3 ∧ c.oldByteForNew 8 = some 5 := by
  have hUncut : Tree.Uncut [1] ⟨some Node.twoWords, []⟩ moveWords :=
    And.intro (fun _ _ hCut => absurd hCut.1 (by decide))
      (And.intro (fun _ _ hCut => absurd hCut.1 (by decide)) trivial)
  refine ⟨_, rfl, ?_⟩
  exact ReuseCursor.oldByteForNew_clean (m := .mk .node ⟨6, 8, ⟨0, 6⟩, ⟨0, 8⟩⟩ false []) _
    moveWords_editsTo rfl Node.twoWords_wellFormed rfl (@rfl _ (Node.twoWords.descend [1])) rfl rfl
    hUncut

/- A word behind a blank, and the cut of the blank. -/
def indentedWord : Node := .mk .node ⟨1, 3, ⟨0, 1⟩, ⟨0, 3⟩⟩ false []

def cutBlank : InputEdit := ⟨0, 1, 0, ⟨0, 0⟩, ⟨0, 1⟩, ⟨0, 0⟩⟩

/- The word is led back to the place of the blank. -/
theorem oldByteForNew_behind_cut :
    indentedWord.WellFormed [32, 97, 98] ∧ EditsTo [32, 97, 98] [cutBlank] [97, 98] ∧
      ∃ c m,
        ReuseCursor.reset plainOptions ([cutBlank].foldl Tree.edit ⟨some indentedWord, []⟩)
          [32, 97, 98] [97, 98] = some c ∧
          ([cutBlank].foldl Tree.edit ⟨some indentedWord, []⟩).root = some m ∧
          m.dirty = false ∧ indentedWord.startByte = 1 ∧ c.oldByteForNew m.startByte = some 0 := by
  refine ⟨.mk (by constructor <;> decide) (by decide) (by decide) (by decide)
    (by simp), ?_, _, _, rfl, rfl, rfl, rfl, rfl⟩
  exact @EditsTo.cons _ [] _ cutBlank [] (by constructor <;> decide) (by decide) (.nil _)

/-
  After any edits the tree is well formed over the last text, and a node without a mark covers the
  text it covered at first.
-/
lemma Tree.edits_wellFormed
    {t : Tree}
    {edits : List InputEdit}
    (hEdits : EditsTo text edits final)
    (hRoot : t.root = some root)
    (hWell : root.WellFormed text) :
    ∃ root',
      (edits.foldl Tree.edit t).root = some root' ∧ root'.WellFormed final ∧
        ∀ path m,
          root'.descend path = some m → m.dirty = false →
            ∃ n,
              root.descend path = some n ∧
                Text.slice final m.extent.start m.extent.stop =
                  Text.slice text n.extent.start n.extent.stop := by
  refine ⟨_, Tree.edits_root hEdits hRoot hWell, ?_, ?_⟩
  · clear hRoot
    induction hEdits generalizing root with
    | nil text => exact hWell
    | cons hEdit hShort _ ih =>
      exact ih (Node.editNodeWithDelta_wellFormed hEdit hShort hWell).2.1
  intro path m hm hClean
  rcases Node.kept_of_edits hEdits hWell hm with ⟨n, hn, hKept⟩
  rcases (hKept hClean).moves [] m rfl with ⟨_, hn', hMoves⟩
  cases hn'
  exact ⟨n, hn, hMoves.slice_eq hEdits (hWell.descend hn).1.span_over.valid⟩

end GoTreeSitter
