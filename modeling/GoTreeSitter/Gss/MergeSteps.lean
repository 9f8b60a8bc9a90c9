import GoTreeSitter.Gss.Merge

/-
  What a merge can do to the links.

  Main declarations:
    * `LinkMerge.AddStep` and `LinkMerge.MergeStep`
    * `Extends`
    * `LinkMerge.addStep_of_addLink`
    * `LinkMerge.mergeNodesMutate_extending`

  Adding a link to a node joins it with a link that is there, after a merge of the nodes below, or
  appends it. So links keep their places and their ends, the graph stays free of circles, and a
  merge into a node leaves all links alone that are not below that node.
-/

-- The Cases of Adding a Link

namespace GoTreeSitter

open List

namespace LinkMerge

/- What adding a link to a node can end in. -/
inductive AddStep (env : MergeEnv) (g : Gss (Option Payload)) (mergeNodes : Recursion) (n : Nat)
    (link : GssLink (Option Payload)) (ms : LinkMerge) : Bool → LinkMerge → Prop
  | refused : AddStep env g mergeNodes n link ms false ms
  | joined {i : Nat} {existing : GssLink (Option Payload)} (hAt : (ms.links n)[i]? = some existing)
      (hStands : standsFor env g ms.links existing link = true)
      (hPrev : existing.prev = link.prev) :
      AddStep env g mergeNodes n link ms true (ms.raisePayload n i existing link.payload)
  | failed {i : Nat} {existing : GssLink (Option Payload)} {ms' : LinkMerge}
      (hAt : (ms.links n)[i]? = some existing)
      (hMerge : mergeNodes existing.prev link.prev ms = some (false, ms')) :
      AddStep env g mergeNodes n link ms false ms'
  | merged {i : Nat} {existing : GssLink (Option Payload)} {ms' : LinkMerge}
      (hAt : (ms.links n)[i]? = some existing)
      (hStands : standsFor env g ms.links existing link = true)
      (hPrev : existing.prev ≠ link.prev)
      (hMerge : mergeNodes existing.prev link.prev ms = some (true, ms')) :
      AddStep env g mergeNodes n link ms true (ms'.raisePayload n i existing link.payload)
  | dropped (hPolicy : env.cLinkPolicy.isSome = true) : AddStep env g mergeNodes n link ms true ms
  | appended (hFree : gssNodeCanReach g.size ms.links link.prev n = false) :
      AddStep env g mergeNodes n link ms true (ms.appendLink n link)

end LinkMerge

variable {view : LinkView (Option Payload)}

/- The places of the links of a node. -/
lemma mem_indexed {n i : Nat} {link : GssLink (Option Payload)} :
    (i, link) ∈ Preflight.indexed view n ↔ (view n)[i]? = some link := by
  unfold Preflight.indexed
  rw [mem_map]
  constructor
  · rintro ⟨⟨l, j⟩, hMem, hEq⟩
    rw [mem_zipIdx_iff_getElem?] at hMem
    injection hEq with hPlace hLink
    subst hPlace
    subst hLink
    exact hMem
  · intro hAt
    exact ⟨(link, i), mem_zipIdx_iff_getElem?.mpr hAt, rfl⟩

namespace LinkMerge

variable {env : MergeEnv} {g : Gss (Option Payload)} {mergeNodes : Recursion} {n : Nat}
  {link : GssLink (Option Payload)} {ms ms' : LinkMerge} {verdict : Bool}

/- If no link stands for the new one there is none to be replaced either. -/
lemma replaceWorst_of_find_none
    (hNone : (Preflight.indexed ms.links n).find?
      (fun entry => standsFor env g ms.links entry.2 link) = none) :
    replaceWorst env g mergeNodes n link ms = some (false, ms) := by
  have hEmpty : (Preflight.indexed ms.links n).filter
      (fun entry => standsFor env g ms.links entry.2 link) = [] := by
    rw [filter_eq_nil_iff]
    exact find?_eq_none.mp hNone
  unfold replaceWorst
  rw [hEmpty]
  rfl

lemma addStep_of_addLink (hAdd : addLink env g mergeNodes n link ms = some (verdict, ms')) :
    AddStep env g mergeNodes n link ms verdict ms' := by
  unfold addLink at hAdd
  split at hAdd
  · cases hAdd
    exact .refused
  split at hAdd
  · cases hAdd
    exact .refused
  rename_i hReach
  cases hFind : (Preflight.indexed ms.links n).find? (fun entry => standsFor env g ms.links entry.2
      link) with
  | some entry =>
    rcases entry with ⟨i, existing⟩
    rw [hFind] at hAdd
    have hAt := mem_indexed.mp (mem_of_find?_eq_some hFind)
    have hStands := find?_some hFind
    by_cases hPrev : existing.prev = link.prev
    · simp only [hPrev, if_true] at hAdd
      cases hAdd
      exact .joined hAt hStands hPrev
    simp only [hPrev, if_false] at hAdd
    split at hAdd
    · cases hAdd
    · rename_i hMerge
      cases hAdd
      exact .failed hAt hMerge
    · rename_i hMerge
      cases hAdd
      exact .merged hAt hStands hPrev hMerge
  | none =>
    rw [hFind] at hAdd
    simp only [replaceWorst_of_find_none hFind] at hAdd
    split at hAdd
    · split_ifs at hAdd with hPolicy
      · cases hAdd
        exact .dropped hPolicy
      cases hAdd
      exact .refused
    · cases hAdd
      exact .appended (Bool.eq_false_iff.mpr hReach)

/- What a merge of two nodes can end in. -/
inductive MergeStep (env : MergeEnv) (g : Gss (Option Payload)) (mergeNodes : Recursion)
    (ms : LinkMerge) : Option Nat → Option Nat → Bool → LinkMerge → Prop
  | trivial {x y : Option Nat} (hTrivial : x = y ∨ x = none ∨ y = none) :
      MergeStep env g mergeNodes ms x y true ms
  | refused {x y : Option Nat} : MergeStep env g mergeNodes ms x y false ms
  | seen {a b : Nat} (hSeen : (a, b) ∈ ms.seen) :
      MergeStep env g mergeNodes ms (some a) (some b) true ms
  | entered {a b : Nat} {verdict : Bool} {ms' : LinkMerge} (hDiffer : a ≠ b)
      (hSeen : (a, b) ∉ ms.seen)
      (hAdd : addLinks env g mergeNodes a b (List.range (ms.links b).length) true
          { ms with seen := (a, b) :: ms.seen }
        = some (verdict, ms')) :
      MergeStep env g mergeNodes ms (some a) (some b) verdict ms'

lemma mergeStep_of_mergeNodesMutate {fuel : Nat} {x y : Option Nat}
    (hMerge : mergeNodesMutate env g (fuel + 1) x y ms = some (verdict, ms')) :
    MergeStep env g (mergeNodesMutate env g fuel) ms x y verdict ms' := by
  cases x with
  | none =>
    cases hMerge
    exact .trivial (.inr (.inl rfl))
  | some a =>
    cases y with
    | none =>
      cases hMerge
      exact .trivial (.inr (.inr rfl))
    | some b =>
      rw [mergeNodesMutate] at hMerge
      split at hMerge
      · rename_i hSame
        cases hMerge
        exact .trivial (.inl (congrArg some hSame))
      rename_i hSame
      split at hMerge
      · cases hMerge
        exact .refused
      split_ifs at hMerge with hSeen
      · cases hMerge
        exact .seen hSeen
      · exact .entered hSame hSeen hMerge

lemma alike_of_standsFor {existing : GssLink (Option Payload)}
    (hStands : standsFor env g view existing link) (hPrev : existing.prev ≠ link.prev) :
    ∃ p q, existing.prev = some p ∧ link.prev = some q ∧ gssNodesAlike g.size g.state view p q := by
  unfold standsFor at hStands
  rw [Bool.and_eq_true] at hStands
  have hMerge := hStands.2
  unfold gssNodesCanMerge at hMerge
  rw [if_neg hPrev] at hMerge
  split at hMerge
  · rename_i p q hLeft hRight
    split at hMerge
    · cases hMerge
    · exact ⟨p, q, hLeft, hRight, hMerge⟩
  · cases hMerge

end LinkMerge

-- Extended Views

variable {π : Type} {view view' : LinkView π}

/- Links keep their places and their ends. -/
def KeepsEnds (view view' : LinkView π) : Prop := ∀ m : Nat,
    (view m).map GssLink.prev <+: (view' m).map GssLink.prev

lemma predecessors_eq (view : LinkView π) (n : Nat) :
    predecessors view n = ((view n).map GssLink.prev).filterMap id := by
  rw [filterMap_map]
  rfl

lemma KeepsEnds.refl (view : LinkView π) : KeepsEnds view view := fun _ => prefix_rfl

lemma KeepsEnds.trans {view'' : LinkView π} (hFirst : KeepsEnds view view')
    (hSecond : KeepsEnds view' view'') :
    KeepsEnds view view'' := fun m => (hFirst m).trans (hSecond m)

lemma KeepsEnds.mem_predecessors (hKeeps : KeepsEnds view view') {m n : Nat}
    (hMem : n ∈ predecessors view m) :
    n ∈ predecessors view' m := by
  rw [predecessors_eq] at hMem ⊢
  exact ((hKeeps m).filterMap id).subset hMem

lemma KeepsEnds.below (hKeeps : KeepsEnds view view') {a b : Nat} (hBelow : Below view a b) :
    Below view' a b := Graph.reaches_mono (fun _ _ hMem => hKeeps.mem_predecessors hMem) hBelow

/- One link with its end left as it is. -/
lemma map_prev_set {links : List (GssLink π)} {i : Nat} {old new : GssLink π}
    (hAt : links[i]? = some old) (hPrev : new.prev = old.prev) :
    (links.set i new).map GssLink.prev = links.map GssLink.prev := by
  rw [map_set, hPrev]
  refine ext_getElem? (fun j => ?_)
  rw [getElem?_set]
  split
  · rename_i hSame
    subst hSame
    simp only [List.getElem?_map, hAt, List.length_map, (List.getElem?_eq_some_iff.mp hAt).1]
    rfl
  · rfl

/- The view after a merge into the node `n`. -/
structure Extends (size n : Nat) (view view' : LinkView π) : Prop where
  formed : WellFormed size view'
  keeps : KeepsEnds view view'
  frame : ∀ m : Nat, view' m ≠ view m → Below view' n m

namespace Extends

variable {size n : Nat} {view view' view'' : LinkView π}

lemma refl (hFormed : WellFormed size view) : Extends size n view view where
  formed := hFormed
  keeps := KeepsEnds.refl view
  frame := fun _ hChanged => absurd rfl hChanged

lemma trans (hFirst : Extends size n view view') (hSecond : Extends size n view' view'') :
    Extends size n view view'' where
  formed := hSecond.formed
  keeps := hFirst.keeps.trans hSecond.keeps
  frame := by
    intro m hChanged
    by_cases hLater : view'' m = view' m
    · rw [hLater] at hChanged
      exact hSecond.keeps.below (hFirst.frame m hChanged)
    · exact hSecond.frame m hLater

/- A merge below a node is one into that node. -/
lemma above {m : Nat} (hExtends : Extends size m view view') (hBelow : Below view n m) :
    Extends size n view view' where
  formed := hExtends.formed
  keeps := hExtends.keeps
  frame := fun k hChanged =>
    (hExtends.keeps.below hBelow).trans (hExtends.frame k hChanged)

/- Above the node nothing changes. -/
lemma eq_of_mem {m : Nat} (hExtends : Extends size n view view') (hEdge : n ∈ predecessors view m) :
    view' m = view m := by
  by_contra hChanged
  exact hExtends.formed.acyclic m n (hExtends.keeps.mem_predecessors hEdge)
    (hExtends.frame m hChanged)

/- A change of the links of one node. -/
lemma update {links' : List (GssLink π)}
    (hFormed : WellFormed size (Function.update view n links'))
    (hKeeps : (view n).map GssLink.prev <+: links'.map GssLink.prev) :
    Extends size n view (Function.update view n links') where
  formed := hFormed
  keeps := by
    intro m
    by_cases hSame : m = n
    · subst hSame
      rw [Function.update_self]
      exact hKeeps
    · rw [Function.update_of_ne hSame]
  frame := by
    intro m hChanged
    by_cases hSame : m = n
    · subst hSame
      exact Graph.reaches_refl _ m
    · rw [Function.update_of_ne hSame] at hChanged
      exact absurd rfl hChanged

end Extends

variable {size : Nat}

lemma WellFormed.of_ends_eq {view' : LinkView π} (hFormed : WellFormed size view)
    (hEnds : ∀ m, (view' m).map GssLink.prev = (view m).map GssLink.prev) :
    WellFormed size view' := by
  have hPredecessors : predecessors view' = predecessors view := by
    funext m
    rw [predecessors_eq, predecessors_eq, hEnds]
  constructor
  · rw [hPredecessors]
    exact hFormed.closed
  · rw [hPredecessors]
    exact hFormed.acyclic

/- A link is replaced by one with the same end. -/
lemma extends_set {size n i : Nat} {old new : GssLink π} (hFormed : WellFormed size view)
    (hAt : (view n)[i]? = some old) (hPrev : new.prev = old.prev) :
    Extends size n view (Function.update view n ((view n).set i new)) := by
  have hEnds := map_prev_set hAt hPrev
  refine Extends.update ?_ (by rw [hEnds])
  refine hFormed.of_ends_eq fun m => ?_
  by_cases hSame : m = n
  · subst hSame
    rw [Function.update_self, hEnds]
  · rw [Function.update_of_ne hSame]

lemma extends_append {size n : Nat} {link : GssLink π} (hFormed : WellFormed size view)
    (hPrev : ∀ p ∈ link.prev, p < size ∧ ¬ Below view p n) :
    Extends size n view (Function.update view n (view n ++ [link])) := by
  have hEdges : ∀ m k,
      k ∈ predecessors (Function.update view n (view n ++ [link])) m →
        k ∈ predecessors view m ∨ (m = n ∧ link.prev = some k) := by
    intro m k hEdge
    by_cases hSame : m = n
    · subst hSame
      rw [mem_predecessors, Function.update_self] at hEdge
      rcases hEdge with ⟨l, hMem, hl⟩
      rcases mem_append.mp hMem with hOld | hNew
      · exact .inl (mem_predecessors.mpr ⟨l, hOld, hl⟩)
      · rw [mem_singleton.mp hNew] at hl
        exact .inr ⟨rfl, hl⟩
    · unfold predecessors at hEdge
      rw [Function.update_of_ne hSame] at hEdge
      exact .inl hEdge
  refine Extends.update ⟨?_, ?_⟩ ?_
  · intro m k hEdge
    rcases hEdges m k hEdge with hOld | ⟨_, hNew⟩
    · exact hFormed.closed m k hOld
    · exact (hPrev k hNew).1
  · cases hEnd : link.prev with
    | none =>
      refine Graph.acyclic_mono ?_ hFormed.acyclic
      intro m k hEdge
      rcases hEdges m k hEdge with hOld | ⟨_, hNew⟩
      · exact hOld
      · simp [hEnd] at hNew
    | some p =>
      refine Graph.acyclic_addEdge n p ?_ hFormed.acyclic (hPrev p hEnd).2
      intro m k hEdge
      rcases hEdges m k hEdge with hOld | ⟨hFrom, hNew⟩
      · exact .inl hOld
      · rw [hEnd] at hNew
        exact .inr ⟨hFrom, (Option.some.inj hNew).symm⟩
  · simp

-- Merges Extend the Links

namespace LinkMerge

variable {env : MergeEnv} {g : Gss (Option Payload)} {mergeNodes : Recursion} {n i : Nat}
  {ms ms' : LinkMerge} {view : LinkView (Option Payload)} {link : GssLink (Option Payload)}
  {verdict : Bool}

/- A call leaves all links alone that are not below `n`. -/
def Extending (size : Nat) (mergeNodes : Recursion) : Prop :=
  ∀ (x y : Option Nat) (ms ms' : LinkMerge) (verdict : Bool) (n : Nat), WellFormed size ms.links →
    (∀ a ∈ x, Below ms.links n a) → mergeNodes x y ms = some (verdict, ms') → Extends size n
    ms.links ms'.links

variable {existing : GssLink (Option Payload)}

lemma extends_raisePayload (hFormed : WellFormed size ms.links)
    (hAt : (ms.links n)[i]? = some existing) (payload : Option Payload) :
    Extends size n ms.links (ms.raisePayload n i existing payload).links := by
  unfold raisePayload
  split
  · exact extends_set hFormed hAt rfl
  · exact Extends.refl hFormed

/- The end of a link is right below its node. -/
lemma mem_predecessors_of_at {p : Nat} (hAt : (view n)[i]? = some link)
    (hPrev : link.prev = some p) :
    p ∈ predecessors view n := mem_predecessors.mpr ⟨link, mem_of_getElem? hAt, hPrev⟩

lemma below_of_at {p : Nat} (hAt : (view n)[i]? = some link) (hPrev : link.prev = some p) :
    Below view n p := Relation.ReflTransGen.single (mem_predecessors_of_at hAt hPrev)

/- The ends of links are allocated nodes. -/
lemma lt_of_at (hFormed : WellFormed size view) (hAt : (view n)[i]? = some link) :
    ∀ p ∈ link.prev, p < size :=
  fun p hp =>
    hFormed.closed n p (mem_predecessors_of_at hAt hp)

section

variable (hExtending : Extending g.size mergeNodes)

include hExtending

lemma getElem_of_merge (hFormed : WellFormed g.size ms.links)
    (hAt : (ms.links n)[i]? = some existing) (hStands : standsFor env g ms.links existing link)
    (hPrev : existing.prev ≠ link.prev)
    (hMerge : mergeNodes existing.prev link.prev ms = some (verdict, ms')) :
    ms'.links n = ms.links n := by
  rcases alike_of_standsFor hStands hPrev with ⟨p, q, hLeft, _, _⟩
  have hBelow : Extends g.size p ms.links ms'.links := by
    refine hExtending _ _ _ _ _ p hFormed ?_ hMerge
    intro a ha
    rw [hLeft] at ha
    cases ha
    exact Graph.reaches_refl _ p
  exact hBelow.eq_of_mem (mem_predecessors_of_at hAt hLeft)

lemma extends_of_addStep (hFormed : WellFormed g.size ms.links)
    (hLink : ∀ p ∈ link.prev, p < g.size) (hStep : AddStep env g mergeNodes n link ms verdict ms') :
    Extends g.size n ms.links ms'.links := by
  have hMerged : ∀ {i : Nat} {existing : GssLink (Option Payload)} {verdict : Bool}
      {ms' : LinkMerge},
      (ms.links n)[i]? = some existing →
        mergeNodes existing.prev link.prev ms = some (verdict, ms') →
        Extends g.size n ms.links ms'.links := by
    intro i existing verdict ms' hAt hMerge
    refine hExtending _ _ _ _ _ n hFormed ?_ hMerge
    exact fun a ha => below_of_at hAt ha
  cases hStep with
  | refused => exact Extends.refl hFormed
  | dropped => exact Extends.refl hFormed
  | joined hAt _ _ => exact extends_raisePayload hFormed hAt link.payload
  | failed hAt hMerge => exact hMerged hAt hMerge
  | merged hAt hStands hPrev hMerge =>
    have hExtends := hMerged hAt hMerge
    refine hExtends.trans ?_
    refine extends_raisePayload hExtends.formed ?_ _
    rw [getElem_of_merge hExtending hFormed hAt hStands hPrev hMerge]
    exact hAt
  | appended hFree =>
    refine extends_append hFormed fun p hp => ?_
    have hBound := hLink p hp
    refine ⟨hBound, fun hBack => ?_⟩
    rw [Option.mem_def.mp hp, (gssNodeCanReach_iff hFormed.closed hBound).mpr hBack] at hFree
    cases hFree

lemma extends_of_addLinks {a b : Nat} {places : List Nat} {mergedAll : Bool}
    (hAdd : addLinks env g mergeNodes a b places mergedAll ms = some (verdict, ms'))
    (hFormed : WellFormed g.size ms.links) :
    Extends g.size a ms.links ms'.links := by
  induction places generalizing mergedAll ms with
  | nil =>
    cases hAdd
    exact Extends.refl hFormed
  | cons i rest ih =>
    rw [addLinks] at hAdd
    split at hAdd
    · exact ih hAdd hFormed
    rename_i link hAt
    split at hAdd
    · cases hAdd
    rename_i merged ms₁ hLink
    have hStep := extends_of_addStep hExtending hFormed
        (lt_of_at hFormed hAt) (addStep_of_addLink hLink)
    exact hStep.trans (ih hAdd hStep.formed)

end

/- A merge keeps all links, in place and without circles. -/
lemma mergeNodesMutate_extending (env : MergeEnv) (g : Gss (Option Payload)) (fuel : Nat) :
    Extending g.size (mergeNodesMutate env g fuel) := by
  induction fuel with
  | zero =>
    intro x y ms ms' verdict n _ _ hMerge
    cases hMerge
  | succ fuel ih =>
    intro x y ms ms' verdict n hFormed hBelow hMerge
    cases mergeStep_of_mergeNodesMutate hMerge with
    | trivial => exact Extends.refl hFormed
    | refused => exact Extends.refl hFormed
    | seen => exact Extends.refl hFormed
    | entered _ _ hAdd =>
      have hInto := extends_of_addLinks ih hAdd hFormed
      exact hInto.above (hBelow _ rfl)

end LinkMerge

end GoTreeSitter
