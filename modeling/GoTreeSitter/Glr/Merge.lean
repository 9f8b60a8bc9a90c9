import GoTreeSitter.Language.Table
import Mathlib.Data.Prod.Lex

/-
  Versions of the generalized parser, their rank, and the merge of the live ones.

  Main declarations:
    * `GlrStack`
    * `mergeKeyForStack`
    * `stackCompareMergeSmallCapOne_eq`
    * `MergeOps`
    * `tryGSSMainMergeResult`

  The merge compares versions by their rank first: accepted before unaccepted, then by score, then
  unshifted before shifted. Everything after that breaks ties only. Versions are taken one after the
  other into a list of survivors. The walks over payloads and graphs (hashes, costs, equivalence,
  the merge of two graphs) are given by `MergeOps`; they read and change a state of type `σ` that
  holds the graphs and the caches.
-/

-- Versions

namespace GoTreeSitter

/-
  A version of the stack. `graph` is its head in the graph or its list of entries; the fields beside
  it are what the merge reads without walking the graph.
-/
structure GlrStack (γ : Type) where
  graph : γ
  inGraph : Bool
  depth : Nat
  topState : StateID
  byteOffset : UInt32
  score : Int
  dead : Bool
  accepted : Bool
  shifted : Bool
  branchOrder : UInt64
  cEverErrored : Bool

variable (a b : GlrStack γ)

/- Versions with the same key are in the same position. -/
structure GlrMergeKey where
  state : StateID
  byteOffset : UInt32
  deriving DecidableEq

variable {γ : Type}

/- The position of a version. -/
def mergeKeyForStack (s : GlrStack γ) : GlrMergeKey :=
  if s.depth = 0 then
    { state := 0, byteOffset := 0 }
  else
    { state := s.topState, byteOffset := s.byteOffset }

/- Versions that look alike from above. -/
def stacksHeaderEquivalent : Bool :=
  a.topState == b.topState && a.byteOffset == b.byteOffset

/- The rank of a version, compared lexicographically. -/
def GlrStack.rank (s : GlrStack γ) : Bool ×ₗ Int ×ₗ Bool :=
  toLex (s.accepted, toLex (s.score, !s.shifted))

/- The comparison of the rank alone. -/
def compareRank : Ordering := (compare a.accepted b.accepted).then
    ((compare a.score b.score).then
      (compare (!a.shifted) (!b.shifted)))

/- The comparison of the merge: rank, depth, position, and the order of the fork. -/
def stackCompareMerge : Ordering := (compareRank a b).then
    ((compare a.depth b.depth).then
      ((compare a.byteOffset b.byteOffset).then
        (compare b.branchOrder a.branchOrder)))

/-
  The comparison for keys with one survivor. The seam for tests prefers the lower score, and
  faithful merges leave the depth alone.
-/
def stackCompareMergeSmallCapOne (structurePreference faithful : Bool) (a b : GlrStack γ) :
    Ordering :=
  (compare a.accepted b.accepted).then
    ((if structurePreference then
        compare b.score a.score
      else
        compare a.score b.score).then
      ((compare (!a.shifted) (!b.shifted)).then
        (if faithful then
          .eq
        else
          compare a.depth b.depth)))

-- Rank

lemma compareRank_eq : compareRank a b = compare a.rank b.rank := rfl

variable {a b : GlrStack γ} {ties : Ordering} {faithful : Bool}

/- Whatever breaks ties, a version not below is as good. -/
lemma rank_le_of_ne_lt (hCompare : (compareRank a b).then ties ≠ .lt) : b.rank ≤ a.rank := by
  rw [← not_lt, ← compare_lt_iff_lt, ← compareRank_eq]
  intro hLess
  rw [hLess] at hCompare
  exact hCompare rfl

lemma rank_le_of_ne_gt (hCompare : (compareRank a b).then ties ≠ .gt) : a.rank ≤ b.rank := by
  rw [← not_lt, ← compare_gt_iff_gt, ← compareRank_eq]
  intro hMore
  rw [hMore] at hCompare
  exact hCompare rfl

/- Without the seam the one survivor is chosen by rank. -/
lemma stackCompareMergeSmallCapOne_eq (faithful : Bool) (a b : GlrStack γ) :
    stackCompareMergeSmallCapOne false faithful a b =
      (compareRank a b).then (if faithful then .eq else compare a.depth b.depth) := by
  unfold stackCompareMergeSmallCapOne compareRank
  rw [Ordering.then_assoc, Ordering.then_assoc]
  rfl

lemma rank_le_of_merge_ne_lt (hCompare : stackCompareMerge a b ≠ .lt) : b.rank ≤ a.rank :=
  rank_le_of_ne_lt hCompare

lemma rank_le_of_merge_ne_gt (hCompare : stackCompareMerge a b ≠ .gt) : a.rank ≤ b.rank :=
  rank_le_of_ne_gt hCompare

/- So does the comparison for one survivor. -/
lemma rank_le_of_capOne_ne_lt (hCompare : stackCompareMergeSmallCapOne false faithful a b ≠ .lt) :
    b.rank ≤ a.rank := by
  rw [stackCompareMergeSmallCapOne_eq] at hCompare
  exact rank_le_of_ne_lt hCompare

lemma rank_le_of_capOne_ne_gt (hCompare : stackCompareMergeSmallCapOne false faithful a b ≠ .gt) :
    a.rank ≤ b.rank := by
  rw [stackCompareMergeSmallCapOne_eq] at hCompare
  exact rank_le_of_ne_gt hCompare

-- Settings and Walks

section

/- The settings of a merge. -/
structure MergeScratch where
  perKeyCap : Int := 0
  packedGSSVersionOrder : Bool := false
  faithfulCapOne : Bool := false
  recoveryCapOneConvergence : Bool := false
  deferExactDedupe : Bool := false
  cRecoveryCostWalk : Bool := false
  cRecoveryConvergence : Bool := false
  cRecoveryFallbackSuppression : Bool := false
  cRecoveryCost : Bool := false
  budgetBytes : Int := 0
  hasParser : Bool := false

/- Switches and sizes that hold for the whole process. -/
structure MergeGlobals where
  glrFaithfulCapOneMerge : Bool
  typeScriptCapOneStructurePreference : Bool
  stackSize : Nat
  slotSize : Nat
  largeSlotSize : Nat

/- The walks over payloads and graphs. -/
structure MergeOps (σ γ : Type) where
  stackHashForMerge : GlrStack γ → StateM σ UInt64
  cStackErrorCostForMergeCached : GlrStack γ → StateM σ UInt32
  gssNodeCleanZeroErrorAllLinks : GlrStack γ → StateM σ Bool
  gssStacksHaveDistinctMaterializingShapes : GlrStack γ → GlrStack γ → StateM σ Bool
  gssMainMerge : GlrStack γ → GlrStack γ → StateM σ Bool
  stackEquivalentForMergeState : StateID → GlrStack γ → GlrStack γ → StateM σ Bool
  runtimeMemoryBudgetStop : StateM σ Bool
  retainTopStacks : Nat → List (GlrStack γ) → List (GlrStack γ)

def maxStacksPerMergeKey : Nat := 6

def maxStacksPerMergeKeyCeiling : Nat := 256

def maxMergeAliveStacks : Nat := 4096

def mergeBudgetPollStride : Nat := 4096

variable {σ γ : Type} (globals : MergeGlobals) (scratch : MergeScratch)

def faithfulCapOneMergeEnabled : Bool := globals.glrFaithfulCapOneMerge
    || scratch.faithfulCapOne
    || (scratch.recoveryCapOneConvergence && (scratch.cRecoveryConvergence
        || scratch.cRecoveryCost))

/- Costs of recovery take part in the merge. -/
def costsCompared : Bool := scratch.cRecoveryCostWalk || scratch.cRecoveryCost

/- The comparison for keys with one survivor. -/
def compareCapOne (a b : GlrStack γ) : Ordering := stackCompareMergeSmallCapOne
    globals.typeScriptCapOneStructurePreference (faithfulCapOneMergeEnabled globals scratch) a b

end

-- Merging into the Graph of a Survivor

section

variable {σ γ : Type} (ops : MergeOps σ γ) (scratch : MergeScratch) (a b : GlrStack γ)
  (result : List (GlrStack γ)) (stack : GlrStack γ)

/-
  The outcome of an attempt: not eligible, eligible but
  kept apart, or taken into the graph of the survivor.
-/
inductive GraphMerge where
  | refused
  | preserved
  | merged
  deriving DecidableEq

/- Costs are compared between versions alike from above. -/
def cRecoveryMergeCostsDiffer : StateM σ Bool :=
  if costsCompared scratch && stacksHeaderEquivalent a b then
    do
      let costA ← ops.cStackErrorCostForMergeCached a
      let costB ← ops.cStackErrorCostForMergeCached b
      pure (costA != costB)
  else
    pure false

/- Versions whose graphs may be merged. -/
def gssMainCanMerge : StateM σ Bool :=
  if a.inGraph && b.inGraph && !a.dead && !b.dead && a.accepted == b.accepted
      && a.score == b.score && a.shifted == b.shifted
      && stacksHeaderEquivalent a b then
    do
      let clean ← ops.gssNodeCleanZeroErrorAllLinks a
      if clean then
        ops.gssNodeCleanZeroErrorAllLinks b
      else
        pure false
  else
    pure false

/- Distinct shapes stay apart unless one may survive. -/
def gssKeptApart : StateM σ Bool :=
  if !scratch.packedGSSVersionOrder && scratch.perKeyCap != 1 then
    ops.gssStacksHaveDistinctMaterializingShapes a b
  else
    pure false

/- An attempt to take `stack` into the graph of `a`. -/
def tryGSSMainMerge : StateM σ GraphMerge :=
  if a.score != stack.score then
    pure .refused
  else do
    let differ ← cRecoveryMergeCostsDiffer ops scratch a stack
    if differ then
      pure .refused
    else
      let eligible ← gssMainCanMerge ops a stack
      if !eligible then
        pure .refused
      else
        let apart ← gssKeptApart ops scratch a stack
        if apart then
          pure .preserved
        else
          let merged ← ops.gssMainMerge a stack
          pure (if merged then .merged else .preserved)

/- A survivor inherits the errors of what it absorbs. -/
def GlrStack.inheritErrors (s stack : GlrStack γ) : GlrStack γ :=
  { s with
    cEverErrored := s.cEverErrored || stack.cEverErrored }

/- The attempt at a survivor of the list. -/
def tryGSSMainMergeResult (idx : Nat) (stack : GlrStack γ) :
    StateM σ (GraphMerge × List (GlrStack γ)) :=
  match result[idx]? with
  | none => pure (.refused, result)
  | some incumbent => do
      let outcome ← tryGSSMainMerge ops scratch incumbent stack
      match outcome with
      | .merged => pure (.merged, result.set idx (incumbent.inheritErrors stack))
      | other => pure (other, result)

-- Cost Classes

/-
  The first survivor of the given ones with the same cost,
  and whether one with another cost was seen instead.
-/
def costClassScan (candidateCost : UInt32) (sawDifferentCost : Bool) :
    List Nat → StateM σ (Option Nat × Bool)
  | [] => pure (none, sawDifferentCost)
  | idx :: rest =>
    match result[idx]? with
    | none => costClassScan candidateCost sawDifferentCost rest
    | some incumbent =>
      if stacksHeaderEquivalent incumbent stack then do
        let cost ← ops.cStackErrorCostForMergeCached incumbent
        if cost == candidateCost then
          pure (some idx, false)
        else
          costClassScan candidateCost true rest
      else
        costClassScan candidateCost sawDifferentCost rest

/- The class of a version among the given survivors. -/
def cRecoveryCostClass (candidates : List Nat) (stack : GlrStack γ) :
    StateM σ (Option Nat × Bool) :=
  if costsCompared scratch then do
    let cost ← ops.cStackErrorCostForMergeCached stack
    costClassScan ops result stack cost false candidates
  else
    pure (none, false)

end

-- Merging a Few Versions

section

variable {σ γ : Type} (globals : MergeGlobals) (ops : MergeOps σ γ) (scratch : MergeScratch)
  (equivalenceFrom : Int) (result : List (GlrStack γ)) (stack : GlrStack γ)

/-
  What the scan over the survivors found: nothing to join, a graph that took the version in, or a
  survivor that the version competes with.
-/
inductive SmallVerdict where
  | append
  | merged
  | duplicate (idx : Nat)
  deriving DecidableEq

/- The survivors with a key, in order. -/
def indicesWithKey (key : GlrMergeKey) : List Nat :=
  (List.range result.length).filter (fun j =>
    (result[j]?.map mergeKeyForStack) == some key)

/- A survivor is equivalent to the version. -/
def equivalentAt (idx : Nat) : StateM σ Bool :=
  match result[idx]? with
  | none => pure false
  | some incumbent =>
    ops.stackEquivalentForMergeState (mergeKeyForStack stack).state incumbent stack

/- Equivalence is looked at once enough were met. -/
def equivalentPast (met : Nat) (result : List (GlrStack γ)) (stack : GlrStack γ) (idx : Nat) :
    StateM σ Bool :=
  if (met : Int) + 1 < equivalenceFrom then
    pure false
  else
    equivalentAt ops result stack idx

/-
  The scan over the survivors with the key of the version. `equivalenceFrom` is the number of
  survivors met before equivalence is looked at.
-/
def smallScan (sameCost : Option Nat) (preserveNewCost : Bool) :
    Nat → List Nat → List (GlrStack γ) → StateM σ (SmallVerdict × List (GlrStack γ))
  | _, [], result => pure (.append, result)
  | met, j :: rest, result => do
      let (outcome, result) ← tryGSSMainMergeResult ops scratch result j stack
      match outcome with
      | .merged => pure (.merged, result)
      | .preserved => pure (.append, result)
      | .refused =>
        let scanRest := smallScan sameCost
            preserveNewCost (met + 1) rest result
        let scanEquivalent := do
          let equivalent ← equivalentPast ops equivalenceFrom met result stack j
          if equivalent then
            pure (.duplicate j, result)
          else
            scanRest
        if scratch.perKeyCap == 1 then
          if preserveNewCost then
            pure (.append, result)
          else if sameCost.isSome && sameCost != some j then
            scanRest
          else
            match (result[j]?).map (compareCapOne globals scratch stack) with
            | some .gt => pure (.duplicate j, result.set j stack)
            | some .lt => pure (.duplicate j, result)
            | _ => scanEquivalent
        else
          scanEquivalent

/- A version replaces a survivor that is not above it. -/
def replaceUnlessBelow (idx : Nat) : List (GlrStack γ) :=
  match (result[idx]?).map (stackCompareMerge stack) with
  | some .lt => result
  | _ => result.set idx stack

/- Cost classes matter when one version may survive. -/
def smallCostClass (candidates : List Nat) (stack : GlrStack γ) : StateM σ (Option Nat × Bool) :=
  if scratch.perKeyCap == 1 then
    cRecoveryCostClass ops scratch result candidates stack
  else
    pure (none, false)

/- The survivors after the scan. -/
def SmallVerdict.survivors (result : List (GlrStack γ)) : SmallVerdict → List (GlrStack γ)
  | .append => result ++ [stack]
  | .merged => result
  | .duplicate idx => replaceUnlessBelow result stack idx

/- One version is taken in. -/
def smallStep : StateM σ (List (GlrStack γ)) := do
  let key := mergeKeyForStack stack
  let candidates := indicesWithKey result key
  let (sameCost, preserveNewCost) ← smallCostClass ops scratch result candidates stack
  let (verdict, result) ← smallScan globals ops scratch equivalenceFrom stack
      sameCost preserveNewCost 0 candidates result
  pure (verdict.survivors stack result)

/- The merge of a few versions. -/
def mergeSmall (alive : List (GlrStack γ)) : StateM σ (List (GlrStack γ)) :=
  alive.foldlM (smallStep globals ops scratch equivalenceFrom) []

/- Equivalence is looked at once the key is full. -/
def mergeStacksSmallDeferExact (alive : List (GlrStack γ)) : StateM σ (List (GlrStack γ)) :=
  mergeSmall globals ops scratch (if 0 < scratch.perKeyCap then
      scratch.perKeyCap
    else
      (maxStacksPerMergeKey : Int))
    alive

/- Equivalence is looked at throughout. -/
def mergeStacksSmallForLanguage (alive : List (GlrStack γ)) : StateM σ (List (GlrStack γ)) :=
  if scratch.deferExactDedupe then
    mergeStacksSmallDeferExact globals ops scratch alive
  else
    mergeSmall globals ops scratch 0 alive

end

-- Slots

section

/-
  The survivors of one key. `indices` are the positions in the list of survivors with the hash of
  each, and `extras` those kept past the capacity of the slot.
-/
structure MergeSlot where
  key : GlrMergeKey
  indices : List (Nat × UInt64) := []
  extras : List (Nat × UInt64) := []
  hashMask : UInt64 := 0
  worstIndex : Option Nat := none

variable (slot : MergeSlot) (result : List (GlrStack γ)) (idx : Nat) (hash : UInt64)

namespace MergeSlot

/- The survivors of the slot. -/
def tracked : List (Nat × UInt64) := slot.indices ++ slot.extras

def trackedIndices : List Nat := slot.tracked.map Prod.fst

end MergeSlot

def mergeHashBit : UInt64 := 1 <<< (hash &&& 63)

/- The hash of the first survivor at an index is set. -/
def setHashFor : List (Nat × UInt64) → List (Nat × UInt64)
  | [] => []
  | (i, h) :: rest =>
    if i = idx then
      (i, hash) :: rest
    else
      (i, h) :: setHashFor rest

namespace MergeSlot

variable {γ : Type}

/- A survivor of the slot has a new hash. -/
def setHash : MergeSlot :=
  if slot.indices.any (fun entry => entry.1 == idx) then
    { slot with
      indices := setHashFor idx hash slot.indices }
  else
    { slot with
      extras := setHashFor idx hash slot.extras }

def recomputeHashMask : MergeSlot :=
  { slot with
    hashMask := slot.tracked.foldl
      (fun mask entry => mask ||| mergeHashBit entry.2) 0 }

/- The survivor at `idx` ranks below the one at `worst`. -/
def below (worst : Nat) : Bool :=
  match result[idx]?, result[worst]? with
  | some a, some b => stackCompareMerge a b == .lt
  | _, _ => false

/- The weakest survivor of the slot, the first of equals. -/
def recomputeWorst : MergeSlot :=
  { slot with
    worstIndex :=
      match slot.trackedIndices with
      | [] => none
      | first :: rest =>
        some (rest.foldl (fun worst idx =>
            if below result idx worst then idx else worst)
          first) }

/- A new survivor may be the weakest one. -/
def noteWorst : MergeSlot :=
  match slot.worstIndex with
  | none => { slot with worstIndex := some idx }
  | some worst =>
    if below result idx worst then
      { slot with worstIndex := some idx }
    else
      slot

/- A version joins the slot and the list of survivors. -/
def append (slot : MergeSlot) (result : List (GlrStack γ)) (stack : GlrStack γ) (hash : UInt64) :
    MergeSlot × List (GlrStack γ) :=
  let idx := result.length
  let result := result ++ [stack]
  let slot :=
    { slot with
      indices := slot.indices ++ [(idx, hash)]
      hashMask := slot.hashMask ||| mergeHashBit hash }
  (slot.noteWorst result idx, result)

/- A version is kept past the capacity of the slot. -/
def preserveCapOneStack (slot : MergeSlot) (result : List (GlrStack γ)) (stack : GlrStack γ)
    (hash : UInt64) : MergeSlot × List (GlrStack γ) :=
  if maxStacksPerMergeKey ≤ slot.indices.length then
    let idx := result.length
    let result := result ++ [stack]
    let slot :=
      { slot with
        extras := slot.extras ++ [(idx, hash)]
        hashMask := slot.hashMask ||| mergeHashBit hash }
    (slot.noteWorst result idx, result)
  else
    slot.append result stack hash

end MergeSlot

/- The slot of a key, a new one if there is none. -/
def findSlot (slots : List MergeSlot) (key : GlrMergeKey) : MergeSlot :=
  (slots.find? (fun slot => slot.key == key)).getD { key := key }

/- The slot is put in the place of the one with its key. -/
def storeSlot : List MergeSlot → List MergeSlot
  | [] => [slot]
  | other :: rest =>
    if other.key = slot.key then
      slot :: rest
    else
      other :: storeSlot rest

/- The number of slots looked at for a key. -/
def slotTrips (slots : List MergeSlot) (key : GlrMergeKey) : Nat :=
  match slots.findIdx? (fun slot => slot.key == key) with
  | some position => position + 1
  | none => slots.length

/- Equal ranks are settled by the larger hash. -/
def preferOverflowCandidate {γ : Type} (candidate incumbent : GlrStack γ)
    (candidateHash incumbentHash : UInt64) : Bool :=
  match stackCompareMerge candidate incumbent with
  | .gt => true
  | .lt => false
  | .eq => decide (incumbentHash < candidateHash)

end

-- Taking a Version into a Slot

variable {σ γ : Type} (globals : MergeGlobals) (ops : MergeOps σ γ) (scratch : MergeScratch)
  (deferExact : Bool) (perKeyCap : Nat) (alive : List (GlrStack γ)) (slot : MergeSlot)
  (result : List (GlrStack γ)) (stack : GlrStack γ) (hash : UInt64)

/- The attempts at the survivors of a slot. -/
structure Sweep (γ : Type) where
  result : List (GlrStack γ)
  merged : Bool
  attempted : Bool
  trips : Nat

/- The attempts stop at the first graph that merges. -/
def mergeIntoTracked : List Nat → List (GlrStack γ) → StateM σ (Sweep γ)
  | [], result =>
    pure
      { result := result, merged := false,
        attempted := false, trips := 0 }
  | idx :: rest, result => do
      let (outcome, result) ← tryGSSMainMergeResult ops scratch result idx stack
      match outcome with
      | .merged =>
        pure
          { result := result, merged := true,
            attempted := true, trips := 1 }
      | other =>
        let sweep ← mergeIntoTracked rest result
        pure
          { sweep with
            attempted := sweep.attempted || other == .preserved
            trips := sweep.trips + 1 }

/- Equivalence is looked at between equal hashes. -/
def equivalentWithHash (idx : Nat) (h : UInt64) : StateM σ Bool :=
  if h == hash then
    equivalentAt ops result stack idx
  else
    pure false

/- The first survivor with the hash that is equivalent. -/
def findDuplicate : List (Nat × UInt64) → StateM σ (Option Nat × Nat)
  | [] => pure (none, 0)
  | (idx, h) :: rest => do
      let equivalent ← equivalentWithHash ops result stack hash idx h
      if equivalent then
        pure (some idx, 1)
      else
        let (found, trips) ← findDuplicate rest
        pure (found, trips + 1)

/- The mask of the slot is asked first. -/
def findDuplicateInSlot (searched : Bool) (slot : MergeSlot) (result : List (GlrStack γ))
    (stack : GlrStack γ) (hash : UInt64) : StateM σ (Option Nat × Nat) :=
  if searched && slot.hashMask &&& mergeHashBit hash != 0 then
    findDuplicate ops result stack hash slot.tracked
  else
    pure (none, 0)

/- A version competes with an equivalent survivor. -/
def MergeSlot.replaceDuplicate (idx : Nat) : MergeSlot × List (GlrStack γ) :=
  match (result[idx]?).map (stackCompareMerge stack) with
  | some .lt => (slot, result)
  | _ =>
    let result := result.set idx stack
    let slot := slot.setHash idx hash
    if slot.worstIndex = some idx then
      (slot.recomputeWorst result, result)
    else
      (slot, result)

/- A version competes with the weakest survivor. -/
def MergeSlot.replaceWorst : MergeSlot × List (GlrStack γ) :=
  match slot.worstIndex with
  | none => (slot, result)
  | some worst =>
    match result[worst]? with
    | none => (slot, result)
    | some incumbent =>
      let replaced := slot.tracked.find? (fun entry => entry.1 == worst)
      let incumbentHash := (replaced.map Prod.snd).getD 0
      if preferOverflowCandidate stack incumbent hash incumbentHash then
        let result := result.set worst stack
        let slot :=
          if replaced.isSome then
            (slot.setHash worst hash).recomputeHashMask
          else
            slot
        (slot.recomputeWorst result, result)
      else
        (slot, result)

/-
  The contest for the one survivor of a key. Nothing is returned when it is left to the steps that
  follow.
-/
def capOneStep : StateM σ (Option (MergeSlot × List (GlrStack γ))) :=
  match slot.trackedIndices with
  | [] => pure none
  | first :: _ => do
      let (sameCost, preserveCost) ← cRecoveryCostClass ops scratch result slot.trackedIndices stack
      let idx := sameCost.getD first
      if preserveCost then
        pure (some (slot.preserveCapOneStack result stack hash))
      else
        match (result[idx]?).map (compareCapOne globals scratch stack) with
        | some .gt =>
          let result := result.set idx stack
          let slot := (slot.setHash idx hash).recomputeHashMask
          pure (some (slot.recomputeWorst result, result))
        | some .lt => pure (some (slot, result))
        | _ =>
          let (outcome, result) ← tryGSSMainMergeResult ops scratch result idx stack
          match outcome with
          | .merged => pure (some (slot, result))
          | .preserved => pure (some (slot.preserveCapOneStack result stack hash))
          | .refused =>
            if scratch.cRecoveryFallbackSuppression
                || scratch.cRecoveryCost then
              pure (some (slot, result))
            else
              pure none

/- There is a contest when one version may survive. -/
def contestStep : StateM σ (Option (MergeSlot × List (GlrStack γ))) :=
  if perKeyCap == 1 then
    capOneStep globals ops scratch slot result stack hash
  else
    pure none

/- An equivalent survivor is merged with or competed with. -/
def joinDuplicate (idx : Nat) : StateM σ (MergeSlot × List (GlrStack γ)) := do
  let (outcome, result) ← tryGSSMainMergeResult ops scratch result idx stack
  match outcome with
  | .merged => pure (slot, result)
  | .preserved => pure (slot.preserveCapOneStack result stack hash)
  | .refused => pure (slot.replaceDuplicate result stack hash idx)

/- The slot is full. -/
def overflowStep : StateM σ (MergeSlot × List (GlrStack γ)) :=
  if perKeyCap == 1 && faithfulCapOneMergeEnabled globals scratch then do
    let sweep ← mergeIntoTracked ops scratch stack slot.trackedIndices result
    if sweep.merged then
      pure (slot, sweep.result)
    else if sweep.attempted then
      pure (slot.preserveCapOneStack sweep.result stack hash)
    else
      pure (slot.replaceWorst sweep.result stack hash)
  else
    pure (slot.replaceWorst result stack hash)

/- The steps after the contest for one survivor. -/
def fillStep : StateM σ (MergeSlot × List (GlrStack γ)) := do
  -- With deferred equivalence the key has to be full.
  let searched :=
    if deferExact then
      decide (perKeyCap ≤ slot.tracked.length)
    else
      decide (0 < slot.tracked.length)
  let (duplicate, _) ← findDuplicateInSlot ops searched slot result stack hash
  match duplicate with
  | some idx => joinDuplicate ops scratch slot result stack hash idx
  | none =>
    if slot.indices.length < perKeyCap then
      pure (slot.append result stack hash)
    else
      overflowStep globals ops scratch perKeyCap slot result stack hash

/- One version is taken into the slot of its key. -/
def mergeSlotStep : StateM σ (MergeSlot × List (GlrStack γ)) := do
  let sweep ← mergeIntoTracked ops scratch stack slot.trackedIndices result
  if sweep.merged then
    pure (slot, sweep.result)
  else
    let settled ← contestStep globals ops scratch perKeyCap slot sweep.result stack hash
    match settled with
    | some done => pure done
    | none => fillStep globals ops scratch deferExact perKeyCap slot sweep.result stack hash

/- The number of survivors looked at for the weakest. -/
def MergeSlot.worstTrips : Nat :=
  match slot.worstIndex with
  | none => 0
  | some worst =>
    match slot.trackedIndices.findIdx? (· == worst) with
    | some position => position + 1
    | none => slot.tracked.length

/- One version is taken into a slot of a large capacity. The comparisons made are counted. -/
def mergeLargeSlotStep : StateM σ ((MergeSlot × List (GlrStack γ)) × Nat) := do
  let sweep ← mergeIntoTracked ops scratch stack slot.trackedIndices result
  if sweep.merged then
    pure ((slot, sweep.result), sweep.trips)
  else
    let (duplicate, trips) ← findDuplicateInSlot ops (0 < slot.tracked.length) slot
        sweep.result stack hash
    let trips := sweep.trips + trips
    match duplicate with
    | some idx => pure (slot.replaceDuplicate sweep.result stack hash idx, trips)
    | none =>
      if slot.indices.length < perKeyCap then
        pure (slot.append sweep.result stack hash, trips)
      else
        pure (slot.replaceWorst sweep.result stack hash, trips + slot.worstTrips)

-- The Merge

/- The survivors and the slots of their keys. -/
structure MergeState (γ : Type) where
  result : List (GlrStack γ) := []
  slots : List MergeSlot := []

/- One version is taken in. -/
def mergeStep (st : MergeState γ) (stack : GlrStack γ) : StateM σ (MergeState γ) := do
  let hash ← ops.stackHashForMerge stack
  let slot := findSlot st.slots (mergeKeyForStack stack)
  let (slot, result) ← mergeSlotStep globals ops scratch deferExact perKeyCap
      slot st.result stack hash
  pure { result := result, slots := storeSlot slot st.slots }

/- The merge of many versions. -/
def mergeSlots : StateM σ (List (GlrStack γ)) := do
  let st ← alive.foldlM (mergeStep globals ops scratch deferExact perKeyCap) {}
  pure st.result

/- Equivalence is looked at once the key is full. -/
def mergeStacksWithScratchDeferExact : StateM σ (List (GlrStack γ)) := mergeSlots globals ops
  scratch true perKeyCap alive

/- The merge of many versions with small slots. -/
def mergeMany : StateM σ (List (GlrStack γ)) :=
  if scratch.deferExactDedupe then
    mergeStacksWithScratchDeferExact globals ops scratch perKeyCap alive
  else
    mergeSlots globals ops scratch false perKeyCap alive

/- The merge of many versions with large slots. -/
structure LargeMergeState (γ : Type) extends MergeState γ where
  comparisons : Nat := 0
  stopped : Bool := false

/- The budget is polled after many comparisons. -/
def pollBudget (st : LargeMergeState γ) : StateM σ (LargeMergeState γ) :=
  if mergeBudgetPollStride ≤ st.comparisons then
    if scratch.hasParser then do
      let stop ← ops.runtimeMemoryBudgetStop
      pure { st with comparisons := 0, stopped := stop }
    else
      pure { st with comparisons := 0 }
  else
    pure st

/- One version is taken in unless the merge has stopped. -/
def mergeLargeStep (st : LargeMergeState γ) (stack : GlrStack γ) : StateM σ (LargeMergeState γ) :=
  if st.stopped then
    pure st
  else do
    let st ← pollBudget ops scratch st
    if st.stopped then
      pure st
    else
      let hash ← ops.stackHashForMerge stack
      let key := mergeKeyForStack stack
      let ((slot, result), trips) ← mergeLargeSlotStep ops scratch perKeyCap
          (findSlot st.slots key) st.result stack hash
      pure
        { result := result
          slots := storeSlot slot st.slots
          comparisons := st.comparisons + slotTrips st.slots key + trips
          stopped := false }

/- The survivors, and whether the budget stopped the merge before all versions were taken in. -/
structure MergeOutcome (γ : Type) where
  result : List (GlrStack γ)
  mergeBudgetStop : Bool

def mergeStacksWithScratchLargeCap : StateM σ (MergeOutcome γ) := do
  let st ← alive.foldlM (mergeLargeStep ops scratch perKeyCap) {}
  pure { result := st.result, mergeBudgetStop := st.stopped }

/- The number of versions a merge takes in. -/
def mergeAliveLimitForScratch (n : Nat) : Nat :=
  let limit := min n maxMergeAliveStacks
  let slotSize :=
    if (maxStacksPerMergeKey : Int) < scratch.perKeyCap then
      globals.largeSlotSize
    else
      globals.slotSize
  let perStack := globals.stackSize + slotSize
  if 0 < scratch.budgetBytes ∧ 0 < perStack then
    min limit (max 1 (scratch.budgetBytes.toNat / perStack))
  else
    limit

/- The number of survivors for each key. -/
def effectivePerKeyCap : Nat :=
  let perKeyCap :=
    if 0 < scratch.perKeyCap then
      scratch.perKeyCap.toNat
    else
      maxStacksPerMergeKey
  min (max 1 perKeyCap) maxStacksPerMergeKeyCeiling

/- The live versions. -/
def liveStacks (versions : List (GlrStack γ)) : List (GlrStack γ) :=
  versions.filter (fun s => !s.dead)

/- The routine for the number of versions and settings. -/
def mergeAlive : StateM σ (MergeOutcome γ) :=
  let perKeyCap := effectivePerKeyCap scratch
  if alive.length ≤ 4 then do
    let result ← mergeStacksSmallForLanguage globals ops scratch alive
    pure { result := result, mergeBudgetStop := false }
  else if maxStacksPerMergeKey < perKeyCap then
    mergeStacksWithScratchLargeCap ops scratch perKeyCap alive
  else do
    let result ← mergeMany globals ops scratch perKeyCap alive
    pure { result := result, mergeBudgetStop := false }

/- The merge of the versions of the parser. -/
def mergeStacksWithScratch (scratch : Option MergeScratch) (versions : List (GlrStack γ)) :
    StateM σ (MergeOutcome γ) :=
  let alive := liveStacks versions
  if alive.length ≤ 1 then
    pure { result := alive, mergeBudgetStop := false }
  else
    let scratch := scratch.getD {}
    let limit := mergeAliveLimitForScratch globals scratch alive.length
    if 0 < limit ∧ limit < alive.length then
      mergeAlive globals ops scratch (ops.retainTopStacks limit alive)
    else
      mergeAlive globals ops scratch alive

end GoTreeSitter
