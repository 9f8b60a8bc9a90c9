import Mathlib

/-
  Depth-first walks over finite graphs, and searches that mark nodes when they go on the stack.

  Main declarations:
    * `Graph.Reaches`
    * `Graph.walk`
    * `Graph.finds_iff`
    * `Graph.flood`
    * `Graph.mem_flood_iff`

  `succ` lists the successors of each node. The walk keeps a stack and a list of visited nodes. With
  a unit of fuel for the start and for every edge it visits exactly the nodes that the start
  reaches. A node that is marked is put on the stack once, so that fuel for as many nodes as there
  are lets that search finish.
-/

-- Reachability

namespace Graph

open List

/- A path of any length leads from one node to another. -/
def Reaches {α : Type} (succ : α → List α) : α → α → Prop :=
  Relation.ReflTransGen (fun m n => n ∈ succ m)

/- No edge lies on a cycle. -/
def Acyclic (succ : Nat → List Nat) : Prop := ∀ m n : Nat, n ∈ succ m → ¬ Reaches succ n m

/- Every edge stays among the first `size` nodes. -/
def Closed (size : Nat) (succ : Nat → List Nat) : Prop := ∀ m n : Nat, n ∈ succ m → n < size

lemma reaches_refl {α : Type} (succ : α → List α) (n : α) : Reaches succ n n :=
  Relation.ReflTransGen.refl

variable {succ succ' : Nat → List Nat}

lemma reaches_mono (hMore : ∀ m n, n ∈ succ m → n ∈ succ' m) {a b : Nat}
    (hReaches : Reaches succ a b) :
    Reaches succ' a b := Relation.ReflTransGen.mono (fun m n => hMore m n) _ _ hReaches

lemma lt_of_reaches {size : Nat} {succ : Nat → List Nat} (hClosed : Closed size succ) {a b : Nat}
    (hStart : a < size) (hReaches : Reaches succ a b) :
    b < size := by
  rcases Relation.ReflTransGen.cases_tail hReaches with hSame | ⟨c, _, hEdge⟩
  · omega
  · exact hClosed c b hEdge

/- Fewer edges close no more cycles. -/
lemma acyclic_mono (hFewer : ∀ m n, n ∈ succ' m → n ∈ succ m) (hAcyclic : Acyclic succ) :
    Acyclic succ' :=
  fun m n hEdge hBack =>
    hAcyclic m n (hFewer m n hEdge) (reaches_mono hFewer hBack)

-- Adding an Edge

variable {succ succ' : Nat → List Nat}

lemma reaches_addEdge {source sink : Nat}
    (hEdges : ∀ m n, n ∈ succ' m → n ∈ succ m ∨ (m = source ∧ n = sink)) {a b : Nat}
    (hReaches : Reaches succ' a b) :
    Reaches succ a b ∨ (Reaches succ a source ∧ Reaches succ sink b) := by
  induction hReaches with
  | refl => exact .inl (reaches_refl succ a)
  | tail _ hEdge ih =>
    rcases hEdges _ _ hEdge with hOld | ⟨hFrom, hTo⟩
    · rcases ih with hPlain | ⟨hLeft, hRight⟩
      · exact .inl (hPlain.tail hOld)
      · exact .inr ⟨hLeft, hRight.tail hOld⟩
    subst hFrom
    subst hTo
    rcases ih with hPlain | ⟨hLeft, _⟩
    · exact .inr ⟨hPlain, reaches_refl succ _⟩
    · exact .inr ⟨hLeft, reaches_refl succ _⟩

lemma acyclic_addEdge (source sink : Nat)
    (hEdges : ∀ m n, n ∈ succ' m → n ∈ succ m ∨ (m = source ∧ n = sink)) (hAcyclic : Acyclic succ)
    (hFree : ¬ Reaches succ sink source) :
    Acyclic succ' := by
  intro m n hEdge hBack
  rcases reaches_addEdge hEdges hBack with hPlain | ⟨hLeft, hRight⟩
  · rcases hEdges m n hEdge with hOld | ⟨hFrom, hTo⟩
    · exact hAcyclic m n hOld hPlain
    subst hFrom
    subst hTo
    exact hFree hPlain
  rcases hEdges m n hEdge with hOld | ⟨hFrom, hTo⟩
  · exact hFree (hRight.trans (Relation.ReflTransGen.head hOld hLeft))
  · subst hTo
    exact hFree hLeft

-- The Walk

variable (size : Nat) (succ : Nat → List Nat)

/- The nodes visited from the stack. -/
def dfs : Nat → List Nat → List Nat → List Nat
  | 0, _, visited => visited
  | _ + 1, [], visited => visited
  | fuel + 1, cur :: stack, visited =>
    if cur ∈ visited then
      dfs fuel stack visited
    else
      dfs fuel ((succ cur).reverse ++ stack) (cur :: visited)

/- The number of edges of a graph. -/
def edgeCount : Nat :=
  ((List.range size).map (fun n => (succ n).length)).sum

/- The nodes visited from a start. -/
def walk (start : Nat) : List Nat :=
  dfs succ (1 + edgeCount size succ) [start] []

variable {succ : Nat → List Nat}

/- The edges out of nodes that are not visited yet. -/
def pending (succ : Nat → List Nat) (visited : List Nat) : Nat :=
  ∑ n ∈ (Finset.range size).filter (· ∉ visited), (succ n).length

variable {cur : Nat}

/- Visiting a node takes its edges away. -/
lemma pending_cons {size : Nat} {visited : List Nat} (hBound : cur < size) (hNew : cur ∉ visited) :
    pending size succ visited = (succ cur).length + pending size succ (cur :: visited) := by
  have hMem : cur ∈ (Finset.range size).filter (· ∉ visited) := by
    rw [Finset.mem_filter, Finset.mem_range]
    exact ⟨hBound, hNew⟩
  have hErase : ((Finset.range size).filter (· ∉ visited)).erase cur =
      (Finset.range size).filter (· ∉ cur :: visited) := by
    ext n
    simp only [Finset.mem_erase, Finset.mem_filter, Finset.mem_range, mem_cons, not_or]
    tauto
  unfold pending
  rw [← Finset.add_sum_erase _ _ hMem, hErase]

/- A unit for the start and for every edge is enough. -/
lemma fuel_suffices (succ : Nat → List Nat) (start : Nat) :
    [start].length + pending size succ [] ≤ 1 + edgeCount size succ := by
  unfold pending edgeCount
  rw [Finset.filter_true_of_mem fun n _ => not_mem_nil]
  exact le_of_eq rfl

-- The Search for a Node

variable {stack visited : List Nat} (succ : Nat → List Nat) (known : Nat → Option Bool)
  (target : Nat)

/-
  A walk that ends at the target. Answers that are known for a node are taken instead of visiting
  it.
-/
def search : Nat → List Nat → List Nat → Bool
  | 0, _, _ => false
  | _ + 1, [], _ => false
  | fuel + 1, cur :: stack, visited =>
    if cur ∈ visited then
      search fuel stack visited
    else if cur = target then
      true
    else
      match known cur with
      | some true => true
      | some false => search fuel stack visited
      | none => search fuel ((succ cur).reverse ++ stack) (cur :: visited)

/- The search from a start. -/
def finds (size : Nat) (succ : Nat → List Nat) (known : Nat → Option Bool) (start target : Nat) :
    Bool := search succ known target (1 + edgeCount size succ) [start] []

/- Known answers are right. -/
def Truthful : Prop :=
  ∀ (n : Nat) (answer : Bool), known n = some answer → (answer = true ↔ Reaches succ n target)

variable {succ : Nat → List Nat} {known : Nat → Option Bool} {target : Nat} {fuel : Nat}

lemma reaches_of_search (hKnown : Truthful succ known target)
    (hFound : search succ known target fuel stack visited) :
    ∃ n ∈ stack, Reaches succ n target := by
  induction fuel generalizing stack visited with
  | zero => cases hFound
  | succ fuel ih =>
    cases stack with
    | nil => cases hFound
    | cons cur stack =>
      have hRest :
          (∃ n ∈ stack, Reaches succ n target) → ∃ n ∈ cur :: stack, Reaches succ n target := by
        rintro ⟨n, hMem, hReaches⟩
        exact ⟨n, mem_cons_of_mem _ hMem, hReaches⟩
      unfold search at hFound
      split at hFound
      · exact hRest (ih hFound)
      split_ifs at hFound with hTarget
      · exact ⟨cur, mem_cons_self, hTarget ▸ reaches_refl succ cur⟩
      split at hFound
      · rename_i hAnswer
        exact ⟨cur, mem_cons_self, (hKnown cur true hAnswer).mp rfl⟩
      · exact hRest (ih hFound)
      rcases ih hFound with ⟨n, hMem, hReaches⟩
      rcases mem_append.mp hMem with hSucc | hOld
      · exact ⟨cur, mem_cons_self, Relation.ReflTransGen.head (mem_reverse.mp hSucc) hReaches⟩
      · exact hRest ⟨n, hOld, hReaches⟩

/- Visited nodes lead on only where the search goes. -/
def Explored (succ : Nat → List Nat) (target : Nat) (stack visited : List Nat) : Prop :=
  target ∉ visited ∧ ∀ v ∈ visited, ∀ w ∈ succ v, w ∈ visited ∨ w ∈ stack ∨ ¬ Reaches succ w target

/- What visited nodes reach is reached from the stack. -/
lemma Explored.ahead (hExplored : Explored succ target stack visited) {n : Nat}
    (hReaches : Reaches succ n target) (hMem : n ∈ visited) :
    ∃ m ∈ stack, Reaches succ m target := by
  induction hReaches using Relation.ReflTransGen.head_induction_on with
  | refl => exact absurd hMem hExplored.1
  | head hEdge hRest ih =>
    rcases hExplored.2 _ hMem _ hEdge with hVisited | hStack | hNot
    · exact ih hVisited
    · exact ⟨_, hStack, hRest⟩
    · exact absurd hRest hNot

lemma Explored.pass (hExplored : Explored succ target (cur :: stack) visited)
    (hPass : cur ∈ visited ∨ ¬ Reaches succ cur target) :
    Explored succ target stack visited := by
  refine ⟨hExplored.1, fun v hv w hw => ?_⟩
  rcases hExplored.2 v hv w hw with hVisited | hStack | hNot
  · exact .inl hVisited
  · rcases mem_cons.mp hStack with hCur | hRest
    · rw [hCur]
      rcases hPass with hVisited | hNot
      · exact .inl hVisited
      · exact .inr (.inr hNot)
    · exact .inr (.inl hRest)
  · exact .inr (.inr hNot)

lemma Explored.rest (hExplored : Explored succ target stack visited)
    (hPass : cur ∈ visited ∨ ¬ Reaches succ cur target)
    (hReaches : ∃ n ∈ cur :: stack, Reaches succ n target) :
    ∃ n ∈ stack, Reaches succ n target := by
  rcases hReaches with ⟨n, hMem, hn⟩
  rcases mem_cons.mp hMem with hCur | hRest
  · rcases hPass with hVisited | hNot
    · exact hExplored.ahead hn (hCur ▸ hVisited)
    · exact absurd (hCur ▸ hn) hNot
  · exact ⟨n, hRest, hn⟩

lemma Explored.visit (hExplored : Explored succ target (cur :: stack) visited)
    (hTarget : cur ≠ target) :
    Explored succ target ((succ cur).reverse ++ stack) (cur :: visited) := by
  refine ⟨?_, fun v hv w hw => ?_⟩
  · intro hMem
    rcases mem_cons.mp hMem with hCur | hOld
    · exact hTarget hCur.symm
    · exact hExplored.1 hOld
  rcases mem_cons.mp hv with hCur | hOld
  · rw [hCur] at hw
    exact .inr (.inl (mem_append_left _ (mem_reverse.mpr hw)))
  rcases hExplored.2 v hOld w hw with hVisited | hStack | hNot
  · exact .inl (mem_cons_of_mem _ hVisited)
  · rcases mem_cons.mp hStack with hSame | hRest
    · exact .inl (hSame ▸ mem_cons_self)
    · exact .inr (.inl (mem_append_right _ hRest))
  · exact .inr (.inr hNot)

variable {size : Nat}

/- What is reached is found, given enough fuel. -/
lemma search_of_reaches (hClosed : Closed size succ) (hKnown : Truthful succ known target)
    (hBound : ∀ n ∈ stack, n < size) (hFuel : stack.length + pending size succ visited ≤ fuel)
    (hExplored : Explored succ target stack visited)
    (hReaches : ∃ n ∈ stack, Reaches succ n target) :
    search succ known target fuel stack visited = true := by
  induction fuel generalizing stack visited with
  | zero =>
    have hNil : stack = [] := by
      rw [← length_eq_zero_iff]
      omega
    simp [hNil] at hReaches
  | succ fuel ih =>
    cases stack with
    | nil => simp at hReaches
    | cons cur stack =>
      rw [forall_mem_cons] at hBound
      rw [length_cons] at hFuel
      -- A node that is passed over leaves the rest to search.
      have hPassed : cur ∈ visited ∨ ¬ Reaches succ cur target →
          search succ known target fuel stack visited := by
        intro hPass
        have hRest := hExplored.pass hPass
        exact ih hBound.2 (by omega) hRest (hRest.rest hPass hReaches)
      unfold search
      split_ifs with hOld hTarget
      · exact hPassed (.inl hOld)
      · rfl
      split
      · rfl
      · rename_i hAnswer
        refine hPassed (.inr fun hCur => ?_)
        cases (hKnown cur false hAnswer).mpr hCur
      have hPending : pending size succ visited = _ := pending_cons hBound.1 hOld
      have hVisit := hExplored.visit hTarget
      refine ih ?_ ?_ hVisit ?_
      · intro n hMem
        rcases mem_append.mp hMem with hSucc | hRest
        · exact hClosed cur n (mem_reverse.mp hSucc)
        · exact hBound.2 n hRest
      · rw [length_append, length_reverse]
        omega
      rcases hReaches with ⟨n, hMem, hn⟩
      rcases mem_cons.mp hMem with hCur | hRest
      · exact hVisit.ahead hn (hCur ▸ mem_cons_self)
      · exact ⟨n, mem_append_right _ hRest, hn⟩

lemma finds_iff (hClosed : Closed size succ) (hKnown : Truthful succ known target) {start : Nat}
    (hStart : start < size) :
    finds size succ known start target ↔ Reaches succ start target := by
  constructor
  · intro hFound
    rcases reaches_of_search hKnown hFound with ⟨n, hMem, hReaches⟩
    rw [mem_singleton.mp hMem] at hReaches
    exact hReaches
  intro hReaches
  refine search_of_reaches hClosed hKnown ?_ (fuel_suffices size succ start) ?_ ?_
  · intro n hMem
    rw [mem_singleton.mp hMem]
    exact hStart
  · exact ⟨not_mem_nil, fun v hv => by cases hv⟩
  · exact ⟨start, mem_singleton_self start, hReaches⟩

-- What the Walk Visits

lemma mem_dfs_of_visited {fuel n : Nat} (hMem : n ∈ visited) : n ∈ dfs succ fuel stack visited := by
  induction fuel generalizing stack visited with
  | zero => exact hMem
  | succ fuel ih =>
    cases stack with
    | nil => exact hMem
    | cons cur stack =>
      unfold dfs
      split
      · exact ih hMem
      · exact ih (mem_cons_of_mem cur hMem)

/- A walk visits what a search without known answers finds. -/
lemma mem_dfs_iff_search (hNew : target ∉ visited) :
    target ∈ dfs succ fuel stack visited ↔
      search succ (fun _ => none) target fuel stack visited := by
  induction fuel generalizing stack visited with
  | zero => simp [dfs, search, hNew]
  | succ fuel ih =>
    cases stack with
    | nil => simp [dfs, search, hNew]
    | cons cur stack =>
      unfold dfs search
      split
      · exact ih hNew
      split_ifs with hTarget
      · rw [← hTarget]
        exact iff_of_true (mem_dfs_of_visited mem_cons_self) rfl
      refine ih fun hMem => ?_
      rcases mem_cons.mp hMem with hCur | hOld
      · exact hTarget hCur.symm
      · exact hNew hOld

lemma mem_walk_iff (hClosed : Closed size succ) {start : Nat} (hStart : start < size) (n : Nat) :
    n ∈ walk size succ start ↔ Reaches succ start n := by
  unfold walk
  rw [mem_dfs_iff_search not_mem_nil]
  refine finds_iff hClosed ?_ hStart
  intro m answer hAnswer
  cases hAnswer

end Graph

-- Marking

namespace Graph

open List

variable {α : Type} [DecidableEq α] {all : Finset α}

/- Nodes not marked yet are marked and put on the stack. -/
def markAll : List α → List α × List α → List α × List α
  | [], found => found
  | node :: rest, (marked, stack) =>
    if node ∈ marked then
      markAll rest (marked, stack)
    else
      markAll rest (marked ++ [node], node :: stack)

/- Nodes are marked until the stack is empty. -/
def flood (succ : α → List α) : Nat → List α × List α → List α
  | 0, (marked, _) => marked
  | _ + 1, (marked, []) => marked
  | fuel + 1, (marked, node :: stack) => flood succ fuel (markAll (succ node) (marked, stack))

/- What marking nodes does. -/
structure Marks (nodes : List α) (before after : List α × List α) : Prop where
  marked : ∀ n : α, n ∈ after.1 ↔ n ∈ before.1 ∨ n ∈ nodes
  stack : ∀ n : α, n ∈ after.2 ↔ n ∈ before.2 ∨ (n ∈ nodes ∧ n ∉ before.1)
  nodup : before.1.Nodup → after.1.Nodup
  count : after.1.length + before.2.length = before.1.length + after.2.length

lemma markAll_marks (nodes : List α) (found : List α × List α) :
    Marks nodes found (markAll nodes found) := by
  induction nodes generalizing found with
  | nil =>
    refine ⟨?_, ?_, id, rfl⟩
    · intro n
      simp [markAll]
    · intro n
      simp [markAll]
  | cons node rest ih =>
    rcases found with ⟨marked, stack⟩
    rw [markAll]
    split_ifs with hIn
    · have hRest := ih (marked, stack)
      refine ⟨?_, ?_, hRest.nodup, hRest.count⟩
      · intro n
        rw [hRest.marked, mem_cons]
        constructor
        · rintro (hOld | hNew)
          · exact .inl hOld
          · exact .inr (.inr hNew)
        rintro (hOld | rfl | hNew)
        · exact .inl hOld
        · exact .inl hIn
        · exact .inr hNew
      intro n
      rw [hRest.stack, mem_cons]
      constructor
      · rintro (hOld | ⟨hNew, hNot⟩)
        · exact .inl hOld
        · exact .inr ⟨.inr hNew, hNot⟩
      rintro (hOld | ⟨rfl | hNew, hNot⟩)
      · exact .inl hOld
      · exact absurd hIn hNot
      · exact .inr ⟨hNew, hNot⟩
    have hRest := ih (marked ++ [node], node :: stack)
    refine ⟨?_, ?_, ?_, ?_⟩
    · intro n
      rw [hRest.marked, mem_append, mem_singleton, mem_cons, or_assoc]
    · intro n
      rw [hRest.stack]
      rw [mem_cons, mem_append, mem_singleton, mem_cons]
      constructor
      · rintro ((rfl | hOld) | ⟨hNew, hNot⟩)
        · exact .inr ⟨.inl rfl, hIn⟩
        · exact .inl hOld
        · exact .inr ⟨.inr hNew, fun h => hNot (.inl h)⟩
      rintro (hOld | ⟨rfl | hNew, hNot⟩)
      · exact .inl (.inr hOld)
      · exact .inl (.inl rfl)
      by_cases hSame : n = node
      · exact .inl (.inl hSame)
      refine .inr ⟨hNew, ?_⟩
      rintro (h | h)
      · exact hNot h
      · exact hSame h
    · intro hNodup
      refine hRest.nodup (nodup_append.mpr ⟨hNodup, nodup_singleton node, ?_⟩)
      intro n hn m hm hSame
      rw [hSame, mem_singleton.mp hm] at hn
      exact hIn hn
    · have hCount := hRest.count
      dsimp only at hCount ⊢
      rw [length_append, length_singleton, length_cons] at hCount
      omega

-- Searches

variable {succ : α → List α}

/- Marked nodes off the stack have marked successors. -/
structure Floods (succ : α → List α) (all : Finset α) (found : List α × List α) : Prop where
  nodup : found.1.Nodup
  within : ∀ n ∈ found.1, n ∈ all
  stack : ∀ n ∈ found.2, n ∈ found.1
  closed : ∀ m ∈ found.1, m ∉ found.2 → ∀ n ∈ succ m, n ∈ found.1

variable {found : List α × List α}

lemma Floods.length_le (hFloods : Floods succ all found) : found.1.length ≤ all.card := by
  rw [← toFinset_card_of_nodup hFloods.nodup]
  refine Finset.card_le_card fun n hn => ?_
  exact hFloods.within n (mem_toFinset.mp hn)

omit [DecidableEq α] in
lemma Floods.done {marked : List α} (hFloods : Floods succ all (marked, [])) :
    marked.Nodup ∧ (∀ m ∈ marked, ∀ n ∈ succ m, n ∈ marked) ∧ (∀ n ∈ marked, n ∈ marked) ∧
      ∀ n ∈ marked, ∃ m ∈ marked, Reaches succ m n :=
  ⟨hFloods.nodup, fun m hm => hFloods.closed m hm not_mem_nil, fun _ hn => hn,
    fun n hn => ⟨n, hn, reaches_refl succ n⟩⟩

section

variable (hAll : ∀ m ∈ all, ∀ n ∈ succ m, n ∈ all)

include hAll

lemma Floods.step {marked stack : List α} {node : α}
    (hFloods : Floods succ all (marked, node :: stack)) :
    Floods succ all (markAll (succ node) (marked, stack)) := by
  have hMarks := markAll_marks (succ node) (marked, stack)
  have hNode : node ∈ marked := hFloods.stack node mem_cons_self
  refine ⟨hMarks.nodup hFloods.nodup, ?_, ?_, ?_⟩
  · intro n hn
    rcases (hMarks.marked n).mp hn with hOld | hNew
    · exact hFloods.within n hOld
    · exact hAll node (hFloods.within node hNode) n hNew
  · intro n hn
    rw [hMarks.marked]
    rcases (hMarks.stack n).mp hn with hOld | ⟨hNew, _⟩
    · exact .inl (hFloods.stack n (mem_cons_of_mem node hOld))
    · exact .inr hNew
  intro m hm hOff n hn
  rw [hMarks.marked]
  rw [hMarks.stack, not_or] at hOff
  by_cases hSame : m = node
  · rw [hSame] at hn
    exact .inr hn
  by_cases hBefore : m ∈ marked
  · left
    refine hFloods.closed m hBefore ?_ n hn
    intro hStack
    rcases mem_cons.mp hStack with h | h
    · exact hSame h
    · exact hOff.1 h
  · have hNew := ((hMarks.marked m).mp hm).resolve_left hBefore
    exact absurd ⟨hNew, hBefore⟩ hOff.2

/- With enough fuel, the marks are closed at the end. -/
lemma flood_spec {fuel : Nat} (hFloods : Floods succ all found)
    (hFuel : all.card + found.2.length ≤ fuel + found.1.length) :
    (flood succ fuel found).Nodup ∧
      (∀ m ∈ flood succ fuel found, ∀ n ∈ succ m, n ∈ flood succ fuel found) ∧
      (∀ n ∈ found.1, n ∈ flood succ fuel found) ∧
      ∀ n ∈ flood succ fuel found, ∃ m ∈ found.1, Reaches succ m n := by
  induction fuel generalizing found with
  | zero =>
    rcases found with ⟨marked, stack⟩
    -- all nodes are marked, so that none is left to do
    have hCard := hFloods.length_le
    dsimp only at hFuel hCard
    have hEmpty : stack = [] := eq_nil_of_length_eq_zero (by omega)
    subst hEmpty
    exact hFloods.done
  | succ fuel ih =>
    rcases found with ⟨marked, stack⟩
    cases stack with
    | nil => exact hFloods.done
    | cons node stack =>
      rw [flood]
      have hMarks := markAll_marks (succ node) (marked, stack)
      have hCount := hMarks.count
      dsimp only at hFuel hCount
      rw [length_cons] at hFuel
      rcases ih (hFloods.step hAll) (by omega) with ⟨hNodup, hClosed, hKeeps, hReaches⟩
      refine ⟨hNodup, hClosed, ?_, ?_⟩
      · intro n hn
        exact hKeeps n ((hMarks.marked n).mpr (.inl hn))
      intro n hn
      rcases hReaches n hn with ⟨m, hm, hWay⟩
      rcases (hMarks.marked m).mp hm with hOld | hNew
      · exact ⟨m, hOld, hWay⟩
      · exact ⟨node, hFloods.stack node mem_cons_self, Relation.ReflTransGen.head hNew hWay⟩

/- From some seeds, exactly what they reach is marked. -/
lemma mem_flood_iff {seeds : List α} (hSeeds : ∀ n ∈ seeds, n ∈ all) {fuel : Nat}
    (hFuel : all.card ≤ fuel) :
    (flood succ fuel (markAll seeds ([], []))).Nodup ∧
      ∀ n, n ∈ flood succ fuel (markAll seeds ([], [])) ↔ ∃ m ∈ seeds, Reaches succ m n := by
  have hMarks := markAll_marks seeds ([], [])
  have hMarked : ∀ n, n ∈ (markAll seeds ([], [])).1 ↔ n ∈ seeds := by
    intro n
    rw [hMarks.marked]
    simp
  have hFloods : Floods succ all (markAll seeds ([], [])) := by
    refine ⟨hMarks.nodup nodup_nil, ?_, ?_, ?_⟩
    · intro n hn
      exact hSeeds n ((hMarked n).mp hn)
    · intro n hn
      rw [hMarked]
      rcases (hMarks.stack n).mp hn with hOld | ⟨hNew, _⟩
      · cases hOld
      · exact hNew
    · intro m hm hOff
      rw [hMarked] at hm
      exact absurd ((hMarks.stack m).mpr (.inr ⟨hm, not_mem_nil⟩)) hOff
  have hCount := hMarks.count
  dsimp only [length_nil] at hCount
  have hEnough : all.card + (markAll seeds ([], [])).2.length ≤
      fuel + (markAll seeds ([], [])).1.length := by omega
  rcases flood_spec hAll hFloods hEnough with ⟨hNodup, hClosed, hKeeps, hReaches⟩
  refine ⟨hNodup, fun n => ⟨?_, ?_⟩⟩
  · intro hn
    rcases hReaches n hn with ⟨m, hm, hWay⟩
    exact ⟨m, (hMarked m).mp hm, hWay⟩
  rintro ⟨m, hm, hWay⟩
  induction hWay with
  | refl => exact hKeeps m ((hMarked m).mpr hm)
  | tail _ hEdge ih => exact hClosed _ ih _ hEdge

end

-- Searches with a Test

/- Nodes are tested when they leave the stack. -/
def checkAll (succ : α → List α) (good : α → Bool) : Nat → List α × List α → Option Bool
  | 0, _ => none
  | _ + 1, (_, []) => some true
  | fuel + 1, (marked, node :: stack) =>
    if good node then
      checkAll succ good fuel (markAll (succ node) (marked, stack))
    else
      some false

/- With enough fuel, the test is made of all that is reached. -/
lemma checkAll_spec {good : α → Bool} (hAll : ∀ m ∈ all, ∀ n ∈ succ m, n ∈ all) {fuel : Nat}
    (hFloods : Floods succ all found) (hGood : ∀ m ∈ found.1, m ∉ found.2 → good m)
    (hFuel : all.card + found.2.length < fuel + found.1.length) :
    ∃ answer,
      checkAll succ good fuel found = some answer ∧
        (answer ↔ ∀ m ∈ found.1, ∀ n, Reaches succ m n → good n) := by
  induction fuel generalizing found with
  | zero =>
    have hCard := hFloods.length_le
    omega
  | succ fuel ih =>
    rcases found with ⟨marked, stack⟩
    cases stack with
    | nil =>
      refine ⟨true, rfl, fun _ m hm n hWay => ?_, fun _ => rfl⟩
      have hIn : n ∈ marked := by
        induction hWay with
        | refl => exact hm
        | tail _ hEdge ih => exact hFloods.closed _ ih not_mem_nil _ hEdge
      exact hGood n hIn not_mem_nil
    | cons node stack =>
      have hNode : node ∈ marked := hFloods.stack node mem_cons_self
      rw [checkAll]
      split_ifs with hTest
      · have hMarks := markAll_marks (succ node) (marked, stack)
        have hCount := hMarks.count
        dsimp only at hFuel hCount
        rw [length_cons] at hFuel
        have hGood' : ∀ m ∈ (markAll (succ node) (marked, stack)).1,
            m ∉ (markAll (succ node) (marked, stack)).2 → good m := by
          intro m hm hOff
          rw [hMarks.stack, not_or] at hOff
          by_cases hSame : m = node
          · rw [hSame]
            exact hTest
          have hOld : m ∈ marked := by
            by_contra hNew
            exact hOff.2 ⟨((hMarks.marked m).mp hm).resolve_left hNew, hNew⟩
          exact hGood m hOld (not_mem_cons_of_ne_of_not_mem hSame hOff.1)
        rcases ih (hFloods.step hAll) hGood' (by omega) with ⟨answer, hAnswer, hIff⟩
        refine ⟨answer, hAnswer, hIff.trans ⟨?_, ?_⟩⟩
        · intro hBelow m hm
          exact hBelow m ((hMarks.marked m).mpr (.inl hm))
        intro hBelow m hm n hWay
        rcases (hMarks.marked m).mp hm with hOld | hNew
        · exact hBelow m hOld n hWay
        · exact hBelow node hNode n (Relation.ReflTransGen.head hNew hWay)
      · refine ⟨false, rfl, Bool.false_ne_true.elim, fun hBelow => ?_⟩
        exact absurd (hBelow node hNode node (reaches_refl succ node)) hTest

end Graph
