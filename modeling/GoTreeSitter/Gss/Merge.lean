import GoTreeSitter.Graph.Walk
import GoTreeSitter.Gss.Payload
import GoTreeSitter.Glr.Merge

/-
  The graph-structured stack, and the merge of two of its heads.

  Main declarations:
    * `GssLink`, `Gss` and `Gss.push`
    * `MergeEnv`
    * `Preflight` and `Preflight.canMergeNodes`
    * `gssNodeCanReach_iff`
    * `Gss.wellFormed_push`

  A node has a state and a list of links to the nodes below it, each with a payload. The first link
  is the one the node was pushed with; merges append the others. All walks are over a view of the
  links, since a merge is simulated on a view before it is made.

  In a merge the links of one head are added to the other. A link with an equivalent payload is
  joined with one that is there, by merging the nodes below. A preflight goes through the merge on a
  view with virtual links, and only if it finds nothing in the way are the links of the graph
  changed.
-/

-- Nodes and Links

namespace GoTreeSitter

/- A link to the node below, none at the root. -/
structure GssLink (π : Type) where
  prev : Option Nat
  payload : π
  deriving DecidableEq

/- The links of every node. -/
abbrev LinkView (π : Type) : Type := Nat → List (GssLink π)

/- Nodes are numbered in the order of their allocation. -/
structure Gss (π : Type) where
  size : Nat
  state : Nat → StateID
  depth : Nat → Nat
  links : LinkView π

variable {π : Type}

/- The nodes right below a node. -/
def predecessors (view : LinkView π) (n : Nat) : List Nat := (view n).filterMap GssLink.prev

/- A push allocates a node above the head. -/
def Gss.push (g : Gss π) (prev : Option Nat) (state : StateID) (payload : π) : Gss π × Nat :=
  let depth :=
    match prev with
    | none => 1
    | some p => g.depth p + 1
  ({ size := g.size + 1
     state := Function.update g.state g.size state
     depth := Function.update g.depth g.size depth
     links := Function.update g.links g.size
        [{ prev := prev, payload := payload }] },
    g.size)

/- A stack without nodes. -/
def Gss.empty : Gss π where
  size := 0
  state := fun _ => 0
  depth := fun _ => 0
  links := fun _ => []

/- Links lead to allocated nodes and never in a circle. -/
structure WellFormed (size : Nat) (view : LinkView π) : Prop where
  closed : Graph.Closed size (predecessors view)
  acyclic : Graph.Acyclic (predecessors view)

/- A node reaches another through links. -/
def Below (view : LinkView π) : Nat → Nat → Prop := Graph.Reaches (predecessors view)

-- Walks

variable {view : LinkView π} {n : Nat} (size : Nat)

/- The search over the links, without known answers. -/
def gssNodeCanReach {π : Type} (size : Nat) (view : LinkView π) (start : Option Nat)
    (target : Nat) : Bool :=
  match start with
  | none => false
  | some n => Graph.finds size (predecessors view) (fun _ => none) n target

/- No payload on the links below a node has an error. -/
def gssNodeCleanZeroErrorAllLinks (view : LinkView (Option Payload)) (n : Nat) : Bool :=
  (Graph.walk size (predecessors view) n).all (fun m =>
    (view m).all (fun link => link.payload.all Payload.clean))

/- The end of the first payload along the first links. -/
def gssNodeByteOffset (view : LinkView (Option Payload)) : Nat → Option Nat → UInt32
  | 0, _ => 0
  | _ + 1, none => 0
  | fuel + 1, some n =>
    match view n with
    | [] => 0
    | link :: _ =>
      match link.payload with
      | some p => p.header.endByte
      | none => gssNodeByteOffset view fuel link.prev

/- The offset all links agree on, if there is one. -/
def agreedOffset (offsetOf : Option Nat → List Nat → Option UInt32 × List Nat) :
    List (GssLink (Option Payload)) → Option UInt32 → List Nat → Option UInt32 × List Nat
  | [], offset, seen => (some (offset.getD 0), seen)
  | link :: rest, offset, seen =>
    let (linkOffset, seen) :=
      match link.payload with
      | some p => (some p.header.endByte, seen)
      | none => offsetOf link.prev seen
    match linkOffset, offset with
    | none, _ => (none, seen)
    | some found, none => agreedOffset offsetOf rest (some found) seen
    | some found, some offset =>
      if offset = found then
        agreedOffset offsetOf rest (some offset) seen
      else
        (none, seen)

/-
  The offset at the end of a node. Links without a payload take it from below; a node met again
  counts by its first links.
-/
def uniformByteOffset (view : LinkView (Option Payload)) :
    Nat → Option Nat → List Nat → Option UInt32 × List Nat
  | 0, _, seen => (none, seen)
  | _ + 1, none, seen => (some 0, seen)
  | fuel + 1, some n, seen =>
    if n ∈ seen then
      (some (gssNodeByteOffset view (size + 1) (some n)), seen)
    else
      agreedOffset (uniformByteOffset view fuel) (view n) none (n :: seen)

def gssNodeUniformByteOffset (view : LinkView (Option Payload)) (n : Option Nat) : Option UInt32 :=
  (uniformByteOffset size view (size + 2) n []).1

/- Apart from reachability, nodes may be merged. -/
def gssNodesAlike (state : Nat → StateID) (view : LinkView (Option Payload)) (a b : Nat) : Bool :=
  state a == state b && gssNodeCleanZeroErrorAllLinks size view a
    && gssNodeCleanZeroErrorAllLinks size view b
    && (match gssNodeUniformByteOffset size view (some a),
        gssNodeUniformByteOffset size view (some b) with
        | some x, some y => x == y
        | _, _ => false)

/- Nodes that may be merged. -/
def gssNodesCanMerge (state : Nat → StateID) (view : LinkView (Option Payload)) (a b : Option Nat) :
    Bool :=
  if a = b then
    true
  else
    match a, b with
    | some m, some n =>
      if gssNodeCanReach size view a n
          || gssNodeCanReach size view b m then
        false
      else
        gssNodesAlike size state view m n
    | _, _ => false

-- Reachability

variable (pushes : List (Option Nat × StateID × π))

lemma mem_predecessors {m : Nat} :
    m ∈ predecessors view n ↔ ∃ link ∈ view n, link.prev = some m := List.mem_filterMap

variable {size : Nat}

/- The search is exact. -/
lemma gssNodeCanReach_iff (hClosed : Graph.Closed size (predecessors view)) {target : Nat}
    (hStart : n < size) :
    gssNodeCanReach size view (some n) target ↔ Below view n target := by
  refine Graph.finds_iff hClosed ?_ hStart
  intro m answer hAnswer
  cases hAnswer

/- A node reaches another that is not itself. -/
def Above (view : LinkView π) (m n : Nat) : Prop := m ≠ n ∧ Below view m n

/- From a node at or above another, one link further. -/
lemma above_of_edge (hFormed : WellFormed size view) {m k : Nat} (hBelow : Below view m n)
    (hEdge : k ∈ predecessors view n) :
    Above view m k := by
  refine ⟨?_, hBelow.tail hEdge⟩
  intro hSame
  rw [hSame] at hBelow
  exact hFormed.acyclic n k hEdge hBelow

lemma gssNodeClean_iff {view : LinkView (Option Payload)}
    (hClosed : Graph.Closed size (predecessors view)) (hStart : n < size) :
    gssNodeCleanZeroErrorAllLinks size view n ↔
      ∀ m, Below view n m → ∀ link ∈ view m, ∀ p ∈ link.payload, p.clean := by
  unfold gssNodeCleanZeroErrorAllLinks
  simp only [List.all_eq_true, Graph.mem_walk_iff hClosed hStart, Option.all_eq_true]
  rfl

-- Pushes

lemma wellFormed_empty : WellFormed 0 (Gss.empty : Gss π).links where
  closed := by
    intro m n hMem
    cases hMem
  acyclic := by
    intro m n hMem
    cases hMem

/- A push adds one edge, from the new node. -/
lemma predecessors_push (g : Gss π) (prev : Option Nat) (state : StateID) (payload : π) {m : Nat}
    (hEdge : n ∈ predecessors (g.push prev state payload).1.links m) :
    (m ≠ g.size ∧ n ∈ predecessors g.links m) ∨ (m = g.size ∧ prev = some n) := by
  rw [mem_predecessors] at hEdge ⊢
  rcases hEdge with ⟨link, hLink, hPrev⟩
  change link ∈ Function.update g.links g.size _ m at hLink
  by_cases hNew : m = g.size
  · subst hNew
    rw [Function.update_self, List.mem_singleton] at hLink
    rw [hLink] at hPrev
    exact .inr ⟨rfl, hPrev⟩
  · rw [Function.update_of_ne hNew] at hLink
    exact .inl ⟨hNew, link, hLink, hPrev⟩

lemma Gss.wellFormed_push (g : Gss π) (hFormed : WellFormed g.size g.links) {prev : Option Nat}
    (hPrev : ∀ p ∈ prev, p < g.size) (state : StateID) (payload : π) :
    WellFormed (g.size + 1) (g.push prev state payload).1.links := by
  constructor
  · intro m n hEdge
    rcases predecessors_push g prev state payload hEdge with ⟨_, hOld⟩ | ⟨_, hNew⟩
    · exact Nat.lt_succ_of_lt (hFormed.closed m n hOld)
    · exact Nat.lt_succ_of_lt (hPrev n hNew)
  cases prev with
  | none =>
    refine Graph.acyclic_mono ?_ hFormed.acyclic
    intro m n hEdge
    rcases predecessors_push g none state payload hEdge with ⟨_, hOld⟩ | ⟨_, hNew⟩
    · exact hOld
    · cases hNew
  | some p =>
    have hp := hPrev p rfl
    refine Graph.acyclic_addEdge g.size p ?_ hFormed.acyclic ?_
    · intro m n hEdge
      rcases predecessors_push g (some p) state payload hEdge with ⟨_, hOld⟩ | ⟨hTop, hNew⟩
      · exact .inl hOld
      · exact .inr ⟨hTop, (Option.some.inj hNew).symm⟩
    intro hBack
    -- Nothing that was there before reaches the node.
    have hLt := Graph.lt_of_reaches hFormed.closed hp hBack
    exact lt_irrefl _ hLt

/- Pushes on a stack, one after the other. -/
def Gss.pushAll (g : Gss π) (pushes : List (Option Nat × StateID × π)) : Gss π :=
  pushes.foldl (fun g (prev, state, payload) =>
      (g.push prev state payload).1) g

/- A stack of pushes only. -/
def Gss.ofPushes : Gss π := Gss.empty.pushAll pushes

/- Every push is over a node that is there. -/
def PushesInOrder : Nat → List (Option Nat × StateID × π) → Prop
  | _, [] => True
  | size, (prev, _, _) :: rest => (∀ p ∈ prev, p < size) ∧ PushesInOrder (size + 1) rest

instance decidablePushesInOrder (size : Nat) (pushes : List (Option Nat × StateID × π)) : Decidable
    (PushesInOrder size pushes) := by
  induction pushes generalizing size with
  | nil => exact inferInstanceAs (Decidable True)
  | cons first rest ih =>
    have := ih (size + 1)
    exact inferInstanceAs (Decidable (_ ∧ _))

lemma Gss.wellFormed_pushAll {g : Gss π} (hFormed : WellFormed g.size g.links)
    (hOrder : PushesInOrder g.size pushes) :
    WellFormed (g.pushAll pushes).size (g.pushAll pushes).links := by
  induction pushes generalizing g with
  | nil => exact hFormed
  | cons first rest ih => exact ih (g.wellFormed_push hFormed hOrder.1 first.2.1 first.2.2) hOrder.2

lemma Gss.wellFormed_ofPushes (hOrder : PushesInOrder 0 pushes) :
    WellFormed (Gss.ofPushes pushes).size (Gss.ofPushes pushes).links :=
  Gss.wellFormed_pushAll pushes wellFormed_empty hOrder

end GoTreeSitter

-- Policies

namespace GoTreeSitter

/- What the certified order of the C runtime compares. -/
structure CLinkPolicy where
  payloadHeader : Payload → Option (Symbol × Nat)
  scannerStatesEqual : Payload → Nat → Payload → Nat → Bool

/-
  The settings of a merge: the scratch for the comparison of payloads, the policy of the C runtime
  if it is active, and the place of a pair of nodes in the cache.
-/
structure MergeEnv where
  scratch : Option EquivScratch := none
  cLinkPolicy : Option CLinkPolicy := none
  cacheIndex : Nat → Nat → Nat := fun _ _ => 0

def maxMainLinkCount : Nat := 6

def maxCMainLinkCount : Nat := 8

/- The number of links a node may have. -/
def MergeEnv.linkLimit (env : MergeEnv) : Nat :=
  if env.cLinkPolicy.isSome then
    maxCMainLinkCount
  else
    maxMainLinkCount

/- Payloads that start and end alike above their offsets. -/
def cPayloadsEquivalentAtOffsets (policy : CLinkPolicy) (a b : Option Payload)
    (aOffset bOffset : Option UInt32) : Bool :=
  if a = b then
    true
  else
    match a, b, aOffset, bOffset with
    | some p, some q, some x, some y =>
      match policy.payloadHeader p, policy.payloadHeader q with
      | some (pSymbol, pCount), some (qSymbol, qCount) =>
        pSymbol == qSymbol && x ≤ p.header.startByte && y ≤ q.header.startByte && p.header.startByte
          ≤ p.header.endByte && q.header.startByte ≤ q.header.endByte && p.header.startByte - x ==
          q.header.startByte - y && p.header.endByte - p.header.startByte == q.header.endByte -
          q.header.startByte && pCount == qCount && p.header.flags.extra == q.header.flags.extra &&
          policy.scannerStatesEqual p pCount q qCount
      | _, _ => false
    | _, _, _, _ => false

/- Links whose payloads stand for each other. -/
def linkPayloadsEquivalent (env : MergeEnv) (size : Nat) (view : LinkView (Option Payload))
    (a b : GssLink (Option Payload)) : Bool :=
  match env.cLinkPolicy with
  | none => payloadsEquivalentIgnoringDynamic env.scratch a.payload b.payload
  | some policy =>
    cPayloadsEquivalentAtOffsets policy a.payload b.payload (gssNodeUniformByteOffset size view
      a.prev) (gssNodeUniformByteOffset size view b.prev)

def payloadDynamicPrecedence (payload : Option Payload) : Int :=
  match payload with
  | some p => p.dynamicPrecedence
  | none => 0

/- The first of the weaker links. -/
def weaker (worst : Option (Nat × GssLink (Option Payload)))
    (candidate : Nat × GssLink (Option Payload)) : Option (Nat × GssLink (Option Payload)) :=
  match worst with
  | none => some candidate
  | some w =>
    if payloadDynamicPrecedence candidate.2.payload < payloadDynamicPrecedence w.2.payload then
      some candidate
    else
      some w

/- The weakest of the links that may be replaced. -/
def worstLink (links : List (Nat × GssLink (Option Payload))) :
    Option (Nat × GssLink (Option Payload)) := links.foldl weaker none

-- Preflight

/- An answer about two nodes, with its validity. -/
structure ReachCacheEntry where
  source : Nat
  target : Nat
  generation : Nat
  epoch : Nat
  reachable : Bool
  deriving DecidableEq

/- The state of a simulated merge. -/
structure Preflight where
  seen : List (Nat × Nat) := []
  virtualLink : LinkView (Option Payload) := fun _ => []
  reachStrict : Bool := true
  reachEpoch : Nat := 1
  reachCacheGeneration : Nat := 1
  reachCache : Nat → Option ReachCacheEntry × Option ReachCacheEntry := fun _ => (none, none)

/- A pooled preflight starts afresh with a new generation. -/
def acquirePreflight (pool : Option Preflight) : Preflight :=
  match pool with
  | none => {}
  | some pf =>
    { reachCacheGeneration := pf.reachCacheGeneration + 1
      reachCache := pf.reachCache }

namespace Preflight

variable (env : MergeEnv) (g : Gss (Option Payload)) (link : GssLink (Option Payload))
  (pf : Preflight)

/- The links with the virtual ones. -/
def view : LinkView (Option Payload) := fun n => g.links n ++ pf.virtualLink n

/- A link is added to the view; old answers lapse. -/
def addVirtualLink (n : Nat) (link : GssLink (Option Payload)) : Preflight :=
  let deeper :=
    match link.prev with
    | some p => decide (g.depth n ≤ g.depth p)
    | none => false
  { pf with
    virtualLink := Function.update pf.virtualLink n
        (pf.virtualLink n ++ [link])
    reachStrict := pf.reachStrict && !deeper
    reachEpoch := pf.reachEpoch + 1 }

/- A valid entry: yes for good, no for its epoch. -/
def entryAnswer (source target : Nat) (entry : Option ReachCacheEntry) : Option Bool :=
  match entry with
  | none => none
  | some e =>
    if e.generation = pf.reachCacheGeneration ∧ e.source = source ∧ e.target = target then
      if e.reachable then
        some true
      else if e.epoch = pf.reachEpoch then
        some false
      else
        none
    else
      none

/- The answer of the cache, if it has one. -/
def cachedReach (source target : Nat) : Option Bool :=
  let (first, second) := pf.reachCache (env.cacheIndex source target)
  (pf.entryAnswer source target first).or (pf.entryAnswer source target second)

/- The cache keeps the last two answers of a place. -/
def cacheReach (source target : Nat) (reachable : Bool) : Preflight :=
  let index := env.cacheIndex source target
  let entry : ReachCacheEntry :=
    { source := source, target := target
      generation := pf.reachCacheGeneration
      epoch := pf.reachEpoch, reachable := reachable }
  { pf with
    reachCache := Function.update pf.reachCache index
        (some entry, (pf.reachCache index).1) }

/-
  Reachability over the view. While all links lead to shallower nodes, depths alone may rule it out.
-/
def canReach (start : Option Nat) (target : Nat) : Bool × Preflight :=
  match start with
  | none => (false, pf)
  | some n =>
    if n = target then
      (true, pf)
    else
      match pf.cachedReach env n target with
      | some answer => (answer, pf)
      | none =>
        if pf.reachStrict && decide (g.depth n ≤ g.depth target) then
          (false, pf)
        else
          let found := Graph.finds g.size (predecessors (pf.view g)) (fun m => pf.cachedReach env m
              target) n target
          (found, pf.cacheReach env n target found)

/- Nodes of the view that may be merged. -/
def nodesCanMerge (a b : Option Nat) : Bool × Preflight :=
  if a = b then
    (true, pf)
  else
    match a, b with
    | some m, some n =>
      let (forth, pf) := pf.canReach env g a n
      if forth then
        (false, pf)
      else
        let (back, pf) := pf.canReach env g b m
        if back then
          (false, pf)
        else
          (gssNodesAlike g.size g.state (pf.view g) m n, pf)
    | _, _ => (false, pf)

/- The first link that can stand for the new one. -/
def findLink :
    List (Nat × GssLink (Option Payload)) → Preflight →
      Option (Nat × GssLink (Option Payload)) × Preflight
  | [], pf => (none, pf)
  | (i, existing) :: rest, pf =>
    if linkPayloadsEquivalent env g.size (pf.view g) existing link then
      let (can, pf) := pf.nodesCanMerge env g existing.prev link.prev
      if can then
        (some (i, existing), pf)
      else
        findLink rest pf
    else
      findLink rest pf

/- All links that can stand for the new one. -/
def findLinks :
    List (Nat × GssLink (Option Payload)) → Preflight →
      List (Nat × GssLink (Option Payload)) × Preflight
  | [], pf => ([], pf)
  | (i, existing) :: rest, pf =>
    if linkPayloadsEquivalent env g.size (pf.view g) existing link then
      let (can, pf) := pf.nodesCanMerge env g existing.prev link.prev
      let (others, pf) := findLinks rest pf
      (if can then (i, existing) :: others else others, pf)
    else
      findLinks rest pf

/- The links of a node of the view, with their places. -/
def indexed (view : LinkView (Option Payload)) (n : Nat) : List (Nat × GssLink (Option Payload)) :=
  (view n).zipIdx.map (fun entry => (entry.2, entry.1))

/- The type of the recursive calls. -/
abbrev Recursion : Type := Option Nat → Option Nat → Preflight → Option (Bool × Preflight)

/- At the limit only a weaker link gives way. -/
def canReplaceWorst (canMergeNodes : Recursion) (n : Nat) (link : GssLink (Option Payload))
    (pf : Preflight) : Option (Bool × Preflight) :=
  let (links, pf) := findLinks env g link (indexed (pf.view g) n) pf
  match worstLink links with
  | none => some (false, pf)
  | some (_, worst) =>
    if payloadDynamicPrecedence link.payload ≤ payloadDynamicPrecedence worst.payload then
      some (false, pf)
    else if worst.prev = link.prev then
      some (true, pf)
    else
      canMergeNodes worst.prev link.prev pf

/- A link may be added to a node. -/
def canAddLink (canMergeNodes : Recursion) (n : Nat) (link : GssLink (Option Payload))
    (pf : Preflight) : Option (Bool × Preflight) :=
  if link.prev = some n then
    some (false, pf)
  else
    let (circle, pf) := pf.canReach env g link.prev n
    if circle then
      some (false, pf)
    else
      let (found, pf) := findLink env g link (indexed (pf.view g) n) pf
      match found with
      | some (_, existing) =>
        if existing.prev = link.prev then
          some (true, pf)
        else
          canMergeNodes existing.prev link.prev pf
      | none =>
        if env.linkLimit ≤ (pf.view g n).length then
          if env.cLinkPolicy.isSome then
            some (true, pf)
          else
            canReplaceWorst env g canMergeNodes n link pf
        else
          some (true, pf.addVirtualLink g n link)

/- The links of `b` may be added to `a`, one by one. -/
def canAddLinks (canMergeNodes : Recursion) (a b : Nat) :
    List Nat → Preflight → Option (Bool × Preflight)
  | [], pf => some (true, pf)
  | i :: rest, pf =>
    match (pf.view g b)[i]? with
    | none => canAddLinks canMergeNodes a b rest pf
    | some link =>
      match canAddLink env g canMergeNodes a link pf with
      | none => none
      | some (false, pf) => some (false, pf)
      | some (true, pf) => canAddLinks canMergeNodes a b rest pf

/- The simulated merge of two nodes. -/
def canMergeNodes : Nat → Option Nat → Option Nat → Preflight → Option (Bool × Preflight)
  | 0, _, _, _ => none
  | fuel + 1, some a, some b, pf =>
    if a = b then
      some (true, pf)
    else
      let (circle, pf) := pf.canReach env g (some b) a
      if circle then
        some (false, pf)
      else if (a, b) ∈ pf.seen then
        some (true, pf)
      else
        canAddLinks env g (canMergeNodes fuel) a b (List.range (pf.view g b).length)
          { pf with seen := (a, b) :: pf.seen }
  | _ + 1, _, _, pf => some (true, pf)

end Preflight

-- Mutation

/- The links and the pairs of nodes merged so far. -/
structure LinkMerge where
  links : LinkView (Option Payload)
  seen : List (Nat × Nat) := []

namespace LinkMerge

variable (env : MergeEnv) (g : Gss (Option Payload))

def setLink (ms : LinkMerge) (n i : Nat) (link : GssLink (Option Payload)) : LinkMerge :=
  { ms with
    links := Function.update ms.links n ((ms.links n).set i link) }

def appendLink (ms : LinkMerge) (n : Nat) (link : GssLink (Option Payload)) : LinkMerge :=
  { ms with
    links := Function.update ms.links n (ms.links n ++ [link]) }

/- A better payload takes the place of an equivalent one. -/
def raisePayload (ms : LinkMerge) (n i : Nat) (existing : GssLink (Option Payload))
    (payload : Option Payload) : LinkMerge :=
  if payloadDynamicPrecedence existing.payload < payloadDynamicPrecedence payload then
    ms.setLink n i { prev := existing.prev, payload := payload }
  else
    ms

/- An existing link can stand for the new one. -/
def standsFor (view : LinkView (Option Payload)) (existing link : GssLink (Option Payload)) :
    Bool :=
  linkPayloadsEquivalent env g.size view existing link
    && gssNodesCanMerge g.size g.state view existing.prev link.prev

/- The type of the recursive calls. -/
abbrev Recursion : Type := Option Nat → Option Nat → LinkMerge → Option (Bool × LinkMerge)

/- At the limit only a weaker link gives way. -/
def replaceWorst (mergeNodes : Recursion) (n : Nat) (link : GssLink (Option Payload))
    (ms : LinkMerge) : Option (Bool × LinkMerge) :=
  let links := (Preflight.indexed ms.links n).filter (fun entry =>
      standsFor env g ms.links entry.2 link)
  match worstLink links with
  | none => some (false, ms)
  | some (i, worst) =>
    if payloadDynamicPrecedence link.payload ≤ payloadDynamicPrecedence worst.payload then
      some (false, ms)
    else if worst.prev = link.prev then
      some (true, ms.setLink n i link)
    else
      match mergeNodes worst.prev link.prev ms with
      | none => none
      | some (false, ms) => some (false, ms)
      | some (true, ms) =>
        some (true, ms.setLink n i { prev := worst.prev, payload := link.payload })

/- A link is added to a node. -/
def addLink (mergeNodes : Recursion) (n : Nat) (link : GssLink (Option Payload)) (ms : LinkMerge) :
    Option (Bool × LinkMerge) :=
  if link.prev = some n then
    some (false, ms)
  else if gssNodeCanReach g.size ms.links link.prev n then
    some (false, ms)
  else
    match (Preflight.indexed ms.links n).find? (fun entry =>
        standsFor env g ms.links entry.2 link) with
    | some (i, existing) =>
      if existing.prev = link.prev then
        some (true, ms.raisePayload n i existing link.payload)
      else
        match mergeNodes existing.prev link.prev ms with
        | none => none
        | some (false, ms) => some (false, ms)
        | some (true, ms) => some (true, ms.raisePayload n i existing link.payload)
    | none =>
      if env.linkLimit ≤ (ms.links n).length then
        if env.cLinkPolicy.isSome then
          some (true, ms)
        else
          replaceWorst env g mergeNodes n link ms
      else
        some (true, ms.appendLink n link)

/- The links of `b` are added to `a`, whatever fails. -/
def addLinks (mergeNodes : Recursion) (a b : Nat) :
    List Nat → Bool → LinkMerge → Option (Bool × LinkMerge)
  | [], mergedAll, ms => some (mergedAll, ms)
  | i :: rest, mergedAll, ms =>
    match (ms.links b)[i]? with
    | none => addLinks mergeNodes a b rest mergedAll ms
    | some link =>
      match addLink env g mergeNodes a link ms with
      | none => none
      | some (merged, ms) => addLinks mergeNodes a b rest (mergedAll && merged) ms

/- The merge of two nodes. -/
def mergeNodesMutate : Nat → Option Nat → Option Nat → LinkMerge → Option (Bool × LinkMerge)
  | 0, _, _, _ => none
  | fuel + 1, some a, some b, ms =>
    if a = b then
      some (true, ms)
    else if gssNodeCanReach g.size ms.links (some b) a then
      some (false, ms)
    else if (a, b) ∈ ms.seen then
      some (true, ms)
    else
      addLinks env g (mergeNodesMutate fuel) a b (List.range (ms.links b).length) true
        { ms with seen := (a, b) :: ms.seen }
  | _ + 1, _, _, ms => some (true, ms)

end LinkMerge

-- The Merge of Two Heads

variable (g : Gss (Option Payload))

/- A live version with its head at a node. -/
def Gss.version (n : Nat) : GlrStack Nat where
  graph := n
  inGraph := true
  depth := g.depth n
  topState := g.state n
  byteOffset := gssNodeByteOffset g.links (g.size + 1) (some n)
  score := 0
  dead := false
  accepted := false
  shifted := false
  branchOrder := 0
  cEverErrored := false

/- Two versions whose heads may be merged. The head of a version is the node in `graph`. -/
def gssMainCanMergeHeads (a b : GlrStack Nat) : Bool :=
  a.inGraph && b.inGraph && !a.dead && !b.dead && a.accepted == b.accepted && a.score == b.score &&
    a.shifted == b.shifted && g.state a.graph == g.state b.graph && a.byteOffset == b.byteOffset &&
    gssNodeCleanZeroErrorAllLinks g.size g.links a.graph && gssNodeCleanZeroErrorAllLinks g.size
    g.links b.graph

/- The verdict, the graph and the preflight for later. -/
structure MergeResult where
  merged : Bool
  graph : Gss (Option Payload)
  pool : Option Preflight

/- Every pair of nodes is entered at most once. -/
def mergeFuel : Nat := g.size * g.size + 1

/- The merge of two heads, after a preflight. -/
def mergeHeads (env : MergeEnv) (pool : Option Preflight) (g : Gss (Option Payload)) (a b : Nat) :
    Option MergeResult :=
  match Preflight.canMergeNodes env g (mergeFuel g) (some a) (some b) (acquirePreflight pool) with
  | none => none
  | some (false, pf) => some { merged := false, graph := g, pool := some pf }
  | some (true, pf) =>
    match LinkMerge.mergeNodesMutate env g (mergeFuel g) (some a) (some b) { links := g.links } with
    | none => none
    | some (merged, ms) =>
      some
        { merged := merged
          graph := { g with links := ms.links }
          pool := some pf }

/- The merge of two versions. -/
def gssMainMergeWithScratch (env : MergeEnv) (pool : Option Preflight) (g : Gss (Option Payload))
    (a b : GlrStack Nat) : Option MergeResult :=
  if a.inGraph && b.inGraph then
    if a.graph = b.graph then
      some { merged := true, graph := g, pool := pool }
    else
      mergeHeads env pool g a.graph b.graph
  else
    some { merged := false, graph := g, pool := pool }

/- The merge without a scratch. -/
def gssMainMerge (a b : GlrStack Nat) : Option MergeResult :=
  gssMainMergeWithScratch {} none g a b

end GoTreeSitter
