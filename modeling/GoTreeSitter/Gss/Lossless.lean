import GoTreeSitter.Gss.Total
import GoTreeSitter.Glr.MergeCorrect

/-
  A merge loses no parse.

  Main declarations:
    * `Path` and `Matches`
    * `Grows`
    * `LinkMerge.mergeNodesMutate_lossless`
    * `gssMainMerge_loses_no_path`
    * `merges_return`
    * `graphOps`
    * `mergeStacks_over_graph`

  A parse is a path of links from a head to the root. In a merge, links keep their places and their
  payloads are only replaced by equivalent ones of higher precedence. So the paths of the first head
  stay. Every link of the second head is joined with a link over a merged node or appended, so by
  induction its paths lead from the first head too.
-/

-- Paths

namespace GoTreeSitter

open List

variable {view view' old : LinkView (Option Payload)} {link : GssLink (Option Payload)}
  {state : Nat → StateID} {a : Nat}

/- A path of links from a node to the root. -/
inductive Path (state : Nat → StateID) (view : LinkView (Option Payload)) :
    Nat → List (StateID × Option Payload) → Prop
  | root {n : Nat} {link : GssLink (Option Payload)} (hMem : link ∈ view n)
      (hPrev : link.prev = none) :
      Path state view n [(state n, link.payload)]
  | step {n m : Nat} {link : GssLink (Option Payload)} {rest : List (StateID × Option Payload)}
      (hMem : link ∈ view n)
      (hPrev : link.prev = some m)
      (hRest : Path state view m rest) :
      Path state view n ((state n, link.payload) :: rest)

/- The same states, and equivalent payloads of at least the same dynamic precedence. -/
def Matches : List (StateID × Option Payload) → List (StateID × Option Payload) → Prop :=
  List.Forall₂ (fun old new =>
    old.1 = new.1 ∧
    payloadsEquivalentIgnoringDynamic none old.2 new.2 = true ∧
    payloadDynamicPrecedence old.2 ≤ payloadDynamicPrecedence new.2)

/- A payload that can take the place of another one. -/
def Stands (old new : Option Payload) : Prop :=
  old.map Payload.signature = new.map Payload.signature ∧
  payloadDynamicPrecedence old ≤ payloadDynamicPrecedence new

lemma Stands.refl (payload : Option Payload) : Stands payload payload := ⟨rfl, le_refl _⟩

lemma Stands.trans {p q r : Option Payload} (hFirst : Stands p q) (hSecond : Stands q r) :
    Stands p r := ⟨hFirst.1.trans hSecond.1, hFirst.2.trans hSecond.2⟩

/- A path that can take the place of another one. -/
def StandIn : List (StateID × Option Payload) → List (StateID × Option Payload) → Prop :=
  List.Forall₂ (fun old new =>
    old.1 = new.1 ∧ Stands old.2 new.2)

lemma StandIn.trans {ps qs rs : List (StateID × Option Payload)} (hFirst : StandIn ps qs)
    (hSecond : StandIn qs rs) :
    StandIn ps rs := by
  induction hFirst generalizing rs with
  | nil => exact hSecond
  | cons hHead _ ih =>
    cases hSecond with
    | cons hHead' hRest' => exact .cons ⟨hHead.1.trans hHead'.1, hHead.2.trans hHead'.2⟩ (ih hRest')

/- No payload of the path has an error. -/
def CleanPath (path : List (StateID × Option Payload)) : Prop :=
  ∀ entry ∈ path, ∀ p ∈ entry.2, p.clean = true

lemma hasError_of_clean {p : Payload} (hClean : p.clean) : p.header.flags.hasError = false := by
  unfold Payload.clean at hClean
  simp only [Bool.and_eq_true, Bool.not_eq_true'] at hClean
  exact hClean.1.1

lemma StandIn.matches {ps qs : List (StateID × Option Payload)} (hStand : StandIn ps qs)
    (hClean : CleanPath ps) :
    Matches ps qs := by
  induction hStand with
  | nil => exact .nil
  | cons hHead _ ih =>
    rcases forall_mem_cons.mp hClean with ⟨hFirst, hRest⟩
    refine .cons ⟨hHead.1, ?_, hHead.2.2⟩ (ih hRest)
    rw [equivalent_iff_signature_eq]
    · exact hHead.2.1
    · exact fun p hp => hasError_of_clean (hFirst p hp)

-- Growing Views

/- Links stay, with payloads that can take their place. -/
def Grows (view view' : LinkView (Option Payload)) : Prop :=
  ∀ (n i : Nat) (link : GssLink (Option Payload)), (view n)[i]? = some link → ∃ link' : GssLink
    (Option Payload), (view' n)[i]? = some link' ∧ link'.prev = link.prev ∧ Stands link.payload
    link'.payload

lemma Grows.refl (view : LinkView (Option Payload)) : Grows view view :=
  fun _ _ link hAt => ⟨link, hAt, rfl, Stands.refl _⟩

lemma Grows.trans {view'' : LinkView (Option Payload)} (hFirst : Grows view view')
    (hSecond : Grows view' view'') :
    Grows view view'' := by
  intro n i link hAt
  rcases hFirst n i link hAt with ⟨link', hAt', hPrev', hStands'⟩
  rcases hSecond n i link' hAt' with ⟨link'', hAt'', hPrev'', hStands''⟩
  exact ⟨link'', hAt'', hPrev''.trans hPrev', hStands'.trans hStands''⟩

lemma Grows.mem (hGrows : Grows view view') {n : Nat} (hMem : link ∈ view n) :
    ∃ link' ∈ view' n, link'.prev = link.prev ∧ Stands link.payload link'.payload := by
  rcases mem_iff_getElem?.mp hMem with ⟨i, hAt⟩
  rcases hGrows n i link hAt with ⟨link', hAt', hPrev, hStands⟩
  exact ⟨link', mem_of_getElem? hAt', hPrev, hStands⟩

variable {links' : List (GssLink (Option Payload))}

/- A change of the links of one node. -/
lemma grows_update {n : Nat}
    (hLinks : ∀ (i : Nat) (link : GssLink (Option Payload)),
      (view n)[i]? = some link →
        ∃ link' : GssLink (Option Payload),
          links'[i]? = some link' ∧ link'.prev = link.prev ∧ Stands link.payload link'.payload) :
    Grows view (Function.update view n links') := by
  intro m i link hAt
  by_cases hSame : m = n
  · subst hSame
    rw [Function.update_self]
    exact hLinks i link hAt
  · rw [Function.update_of_ne hSame]
    exact ⟨link, hAt, rfl, Stands.refl _⟩

lemma grows_append (view : LinkView (Option Payload)) (n : Nat) (link : GssLink (Option Payload)) :
    Grows view (Function.update view n (view n ++ [link])) := by
  refine grows_update fun i old hAt => ?_
  have hBound := (List.getElem?_eq_some_iff.mp hAt).1
  rw [getElem?_append_left hBound]
  exact ⟨old, hAt, rfl, Stands.refl _⟩

lemma grows_set {n i : Nat} {old new : GssLink (Option Payload)} (hAt : (view n)[i]? = some old)
    (hPrev : new.prev = old.prev) (hStands : Stands old.payload new.payload) :
    Grows view (Function.update view n ((view n).set i new)) := by
  refine grows_update fun j link hLink => ?_
  by_cases hSame : i = j
  · subst hSame
    rw [hAt] at hLink
    cases hLink
    have hBound := (List.getElem?_eq_some_iff.mp hAt).1
    rw [getElem?_set_self hBound]
    exact ⟨new, rfl, hPrev, hStands⟩
  · rw [getElem?_set_ne hSame]
    exact ⟨link, hLink, rfl, Stands.refl _⟩

/- Every old path from the second node has one from the first that can take its place. -/
def Dominates (state : Nat → StateID) (old view : LinkView (Option Payload)) (a b : Nat) : Prop :=
  ∀ path : List (StateID × Option Payload), Path state old b path →
    ∃ path' : List (StateID × Option Payload), Path state view a path' ∧ StandIn path path'

lemma Grows.dominates (hGrows : Grows view view') (state : Nat → StateID) (n : Nat) :
    Dominates state view view' n n := by
  intro path hPath
  induction hPath with
  | root hMem hPrev =>
    rcases hGrows.mem hMem with ⟨link', hMem', hPrev', hStands⟩
    exact ⟨_, .root hMem' (hPrev'.trans hPrev), .cons ⟨rfl, hStands⟩ .nil⟩
  | step hMem hPrev _ ih =>
    rcases hGrows.mem hMem with ⟨link', hMem', hPrev', hStands⟩
    rcases ih with ⟨rest', hRest', hStandIn⟩
    exact ⟨_, .step hMem' (hPrev'.trans hPrev) hRest', .cons ⟨rfl, hStands⟩ hStandIn⟩

lemma Dominates.grows {b : Nat} (hDominates : Dominates state old view a b)
    (hGrows : Grows view view') :
    Dominates state old view' a b := by
  intro path hPath
  rcases hDominates path hPath with ⟨path', hPath', hStandIn⟩
  rcases hGrows.dominates state a path' hPath' with ⟨path'', hPath'', hStandIn'⟩
  exact ⟨path'', hPath'', hStandIn.trans hStandIn'⟩

/- A link of the node takes the place of the old link. -/
def Covers (state : Nat → StateID) (old view : LinkView (Option Payload)) (a : Nat)
    (link : GssLink (Option Payload)) : Prop :=
  ∃ link' ∈ view a, Stands link.payload link'.payload ∧ ((link.prev = none ∧ link'.prev = none) ∨ ∃
      x y : Nat, link'.prev = some x ∧ link.prev = some y ∧ Dominates state old view x y)

lemma Covers.grows (hCovers : Covers state old view a link) (hGrows : Grows view view') :
    Covers state old view' a link := by
  rcases hCovers with ⟨link', hMem', hStands, hEnds⟩
  rcases hGrows.mem hMem' with ⟨link'', hMem'', hPrev'', hStands''⟩
  refine ⟨link'', hMem'', hStands.trans hStands'', ?_⟩
  rw [hPrev'']
  rcases hEnds with hRoot | ⟨x, y, hx, hy, hDominates⟩
  · exact .inl hRoot
  · exact .inr ⟨x, y, hx, hy, hDominates.grows hGrows⟩

/- A link over the same node takes the place. -/
lemma covers_of_same_prev (hGrows : Grows old view) {link' : GssLink (Option Payload)}
    (hMem : link' ∈ view a) (hPrev : link'.prev = link.prev)
    (hStands : Stands link.payload link'.payload) :
    Covers state old view a link := by
  refine ⟨link', hMem, hStands, ?_⟩
  rw [hPrev]
  cases link.prev with
  | none => exact .inl ⟨rfl, rfl⟩
  | some p => exact .inr ⟨p, p, rfl, rfl, hGrows.dominates state p⟩

lemma dominates_of_covers {b : Nat} (hState : state a = state b)
    (hCovers : ∀ link ∈ old b, Covers state old view a link) :
    Dominates state old view a b := by
  intro path hPath
  cases hPath with
  | root hMem hPrev =>
    rcases hCovers _ hMem with ⟨link', hMem', hStands, hEnds⟩
    rcases hEnds with ⟨_, hRoot⟩ | ⟨x, y, _, hy, _⟩
    · exact ⟨_, .root hMem' hRoot, .cons ⟨hState.symm, hStands⟩ .nil⟩
    · simp [hPrev] at hy
  | step hMem hPrev hRest =>
    rcases hCovers _ hMem with ⟨link', hMem', hStands, hEnds⟩
    rcases hEnds with ⟨hNone, _⟩ | ⟨x, y, hx, hy, hBelow⟩
    · simp [hPrev] at hNone
    rw [hPrev] at hy
    cases hy
    rcases hBelow _ hRest with ⟨rest', hRest', hStandIn⟩
    exact ⟨_, .step hMem' hx hRest', .cons ⟨hState.symm, hStands⟩ hStandIn⟩

-- The Merge of Two Nodes

namespace LinkMerge

variable {view : LinkView (Option Payload)} {existing link : GssLink (Option Payload)}
  {ms ms' : LinkMerge} {n : Nat}

/- A part of the stack with clean payloads only. -/
def CleanRegion (region : Nat → Prop) (view : LinkView (Option Payload)) : Prop :=
  ∀ n : Nat, region n → ∀ link ∈ view n,
    (∀ p ∈ link.payload, p.clean = true) ∧ ∀ m ∈ link.prev, region m

/-
  What holds between the steps of a merge. A pair that was entered is still being merged, and then
  its first node is above all nodes at hand, or its paths are taken over.
-/
structure Sound (g : Gss (Option Payload)) (old : LinkView (Option Payload)) (region : Nat → Prop)
    (active : List (Nat × Nat)) (ms : LinkMerge) : Prop where
  formed : WellFormed g.size ms.links
  grows : Grows old ms.links
  clean : CleanRegion region ms.links
  done : ∀ a b : Nat, (a, b) ∈ ms.seen → (a, b) ∈ active ∨ Dominates g.state old ms.links a b

/- A successful call takes over the paths. -/
def Lossless (g : Gss (Option Payload)) (old : LinkView (Option Payload)) (region : Nat → Prop)
    (mergeNodes : Recursion) : Prop :=
  ∀ (a b : Nat) (ms ms' : LinkMerge) (active : List (Nat × Nat)), region a → region b → g.state a =
    g.state b → Sound g old region active ms → (∀ pair ∈ active, Above ms.links pair.1 a) →
    mergeNodes (some a) (some b) ms = some (true, ms') → Sound g old region active ms' ∧ Grows
    ms.links ms'.links ∧ Dominates g.state old ms'.links a b

variable {g : Gss (Option Payload)} {old : LinkView (Option Payload)} {region : Nat → Prop}
  {active : List (Nat × Nat)} {mergeNodes : Recursion}

lemma signature_eq_of_standsFor (hStands : standsFor {} g view existing link)
    (hClean : ∀ p ∈ existing.payload, p.clean) :
    existing.payload.map Payload.signature = link.payload.map Payload.signature := by
  unfold standsFor at hStands
  rw [Bool.and_eq_true] at hStands
  refine (equivalent_iff_signature_eq ?_).mp hStands.1
  exact fun p hp => hasError_of_clean (hClean p hp)

lemma raisePayload_at {i : Nat} (hAt : (ms.links n)[i]? = some existing)
    {payload : Option Payload}
    (hSignature : existing.payload.map Payload.signature = payload.map Payload.signature) :
    Grows ms.links (ms.raisePayload n i existing payload).links ∧
      ∃ link' ∈ (ms.raisePayload n i existing payload).links n,
        link'.prev = existing.prev ∧ Stands payload link'.payload := by
  unfold raisePayload
  split_ifs with hLess
  · refine ⟨grows_set hAt rfl ⟨hSignature, hLess.le⟩, ?_⟩
    refine ⟨{ prev := existing.prev, payload := payload }, ?_, rfl, Stands.refl _⟩
    change _ ∈ Function.update ms.links n _ n
    rw [Function.update_self]
    exact List.mem_set (List.getElem?_eq_some_iff.mp hAt).1 _
  · exact ⟨Grows.refl _, existing, mem_of_getElem? hAt, rfl, hSignature.symm, not_lt.mp hLess⟩

lemma cleanRegion_update (hClean : CleanRegion region view)
    (hLinks : ∀ link' ∈ links',
      link' ∈ view n ∨ (∀ p ∈ link'.payload, p.clean) ∧ ∀ m ∈ link'.prev, region m) :
    CleanRegion region (Function.update view n links') := by
  intro m hRegion link hMem
  by_cases hSame : m = n
  · subst hSame
    rw [Function.update_self] at hMem
    rcases hLinks link hMem with hOld | hNew
    · exact hClean m hRegion link hOld
    · exact hNew
  · rw [Function.update_of_ne hSame] at hMem
    exact hClean m hRegion link hMem

lemma cleanRegion_raisePayload {i : Nat} (hClean : CleanRegion region ms.links)
    (hRegion : region n) (hAt : (ms.links n)[i]? = some existing)
    (hLink : ∀ p ∈ link.payload, p.clean) :
    CleanRegion region (ms.raisePayload n i existing link.payload).links := by
  unfold raisePayload
  split
  · refine cleanRegion_update hClean (fun link' hMem => ?_)
    rcases mem_or_eq_of_mem_set hMem with hOld | hNew
    · exact .inl hOld
    · subst hNew
      exact .inr ⟨hLink, (hClean n hRegion existing (mem_of_getElem? hAt)).2⟩
  · exact hClean

lemma Sound.step (hSound : Sound g old region active ms) (hFormed : WellFormed g.size ms'.links)
    (hGrows : Grows ms.links ms'.links) (hClean : CleanRegion region ms'.links)
    (hSeen : ms'.seen = ms.seen) :
    Sound g old region active ms' where
  formed := hFormed
  grows := hSound.grows.trans hGrows
  clean := hClean
  done := by
    intro a b hMem
    rw [hSeen] at hMem
    rcases hSound.done a b hMem with hActive | hDominates
    · exact .inl hActive
    · exact .inr (hDominates.grows hGrows)

/- A link that was added is covered. -/
lemma addStep_lossless
    (hLossless : Lossless g old region mergeNodes)
    (hExtending : Extending g.size mergeNodes)
    (hSound : Sound g old region active ms)
    (hActive : ∀ pair ∈ active, Below ms.links pair.1 n)
    (hRegion : region n)
    (hBound : ∀ p ∈ link.prev, p < g.size)
    (hClean : ∀ p ∈ link.payload, p.clean)
    (hBelow : ∀ m ∈ link.prev, region m)
    (hStep : AddStep {} g mergeNodes n link ms true ms') :
    Sound g old region active ms' ∧ Grows ms.links ms'.links ∧
      Covers g.state old ms'.links n link := by
  have hFormed := (extends_of_addStep hExtending hSound.formed hBound hStep).formed
  cases hStep with
  | dropped hPolicy => cases hPolicy
  | @joined i existing hAt hStands hPrev =>
    have hExisting := hSound.clean n hRegion existing (mem_of_getElem? hAt)
    rcases raisePayload_at hAt (signature_eq_of_standsFor hStands hExisting.1) with
      ⟨hGrows, link', hMem, hPrev', hStands'⟩
    have hSound' := hSound.step hFormed hGrows (cleanRegion_raisePayload hSound.clean hRegion hAt
        hClean) (seen_raisePayload _ _ _ _ _)
    exact ⟨hSound', hGrows, covers_of_same_prev hSound'.grows hMem (hPrev'.trans hPrev) hStands'⟩
  | @merged i existing ms₁ hAt hStands hPrev hMerge =>
    rcases alike_of_standsFor hStands hPrev with ⟨p, q, hLeft, hRight, hAlike⟩
    have hExisting := hSound.clean n hRegion existing (mem_of_getElem? hAt)
    have hState : g.state p = g.state q := by
      unfold gssNodesAlike at hAlike
      simp only [Bool.and_eq_true, beq_iff_eq] at hAlike
      exact hAlike.1.1.1
    -- The links of the node itself are as they were.
    have hSame := getElem_of_merge hExtending hSound.formed hAt hStands hPrev hMerge
    have hAt₁ : (ms₁.links n)[i]? = some existing := by
      rw [hSame]
      exact hAt
    rw [hLeft, hRight] at hMerge
    rcases hLossless p q ms ms₁ active (hExisting.2 p hLeft) (hBelow q hRight) hState hSound (fun
      pair hMem => above_of_edge hSound.formed (hActive pair hMem) (mem_predecessors_of_at hAt
      hLeft)) hMerge with
      ⟨hSound₁, hGrows₁, hDominates⟩
    rcases raisePayload_at hAt₁ (signature_eq_of_standsFor hStands hExisting.1) with
      ⟨hGrows, link', hMem, hPrev', hStands'⟩
    refine ⟨?_, hGrows₁.trans hGrows, link', hMem, hStands', ?_⟩
    · exact hSound₁.step hFormed hGrows (cleanRegion_raisePayload hSound₁.clean hRegion hAt₁
          hClean) (seen_raisePayload _ _ _ _ _)
    · exact .inr ⟨p, q, hPrev'.trans hLeft, hRight, hDominates.grows hGrows⟩
  | appended _ =>
    have hGrows := grows_append ms.links n link
    have hSound' := hSound.step hFormed hGrows
      (cleanRegion_update hSound.clean (fun link' hMem => by
        rcases mem_append.mp hMem with hOld | hNew
        · exact .inl hOld
        · rw [mem_singleton.mp hNew]
          exact .inr ⟨hClean, hBelow⟩)) rfl
    refine ⟨hSound', hGrows, ?_⟩
    refine covers_of_same_prev hSound'.grows ?_ rfl (Stands.refl _)
    change link ∈ Function.update ms.links n _ n
    rw [Function.update_self]
    exact mem_append_right _ (mem_singleton_self _)

lemma addLinks_of_failed {env : MergeEnv} {a b : Nat} {places : List Nat} {verdict : Bool}
    (hAdd : addLinks env g mergeNodes a b places false ms = some (verdict, ms')) :
    verdict = false := by
  induction places generalizing ms with
  | nil =>
    cases hAdd
    rfl
  | cons i rest ih =>
    rw [addLinks] at hAdd
    split at hAdd
    · exact ih hAdd
    split at hAdd
    · cases hAdd
    · exact ih hAdd

lemma addLinks_lossless
    (hLossless : Lossless g old region mergeNodes)
    (hExtending : Extending g.size mergeNodes)
    {a b : Nat}
    {places : List Nat}
    (hAdd : addLinks {} g mergeNodes a b places true ms = some (true, ms'))
    (hSound : Sound g old region active ms)
    (hActive : ∀ pair ∈ active, Below ms.links pair.1 a)
    (hLeft : region a)
    (hRight : region b) :
    Sound g old region active ms' ∧ Grows ms.links ms'.links ∧
      ∀ i ∈ places, ∀ link : GssLink (Option Payload),
        (old b)[i]? = some link → Covers g.state old ms'.links a link := by
  induction places generalizing ms with
  | nil =>
    cases hAdd
    refine ⟨hSound, Grows.refl _, ?_⟩
    intro i hMem
    cases hMem
  | cons i rest ih =>
    rw [addLinks] at hAdd
    split at hAdd
    · rename_i hNone
      rcases ih hAdd hSound hActive with ⟨hSound', hGrows, hCovers⟩
      refine ⟨hSound', hGrows, forall_mem_cons.mpr ⟨?_, hCovers⟩⟩
      intro link hAt
      rcases hSound.grows b i link hAt with ⟨_, hSome, _⟩
      simp [hNone] at hSome
    rename_i link hAt
    split at hAdd
    · cases hAdd
    rename_i merged ms₁ hLink
    cases merged with
    | false => cases addLinks_of_failed hAdd
    | true =>
      have hStep := addStep_of_addLink hLink
      have hBound := lt_of_at hSound.formed hAt
      have hClean := hSound.clean b hRight link (mem_of_getElem? hAt)
      rcases addStep_lossless hLossless hExtending hSound hActive hLeft hBound hClean.1 hClean.2
        hStep with ⟨hSound₁, hGrows₁, hCovers₁⟩
      have hExtends := extends_of_addStep hExtending hSound.formed hBound hStep
      rcases ih hAdd hSound₁ (fun pair hMem => hExtends.keeps.below (hActive pair hMem)) with
        ⟨hSound', hGrows, hCovers⟩
      refine ⟨hSound', hGrows₁.trans hGrows, forall_mem_cons.mpr ⟨?_, hCovers⟩⟩
      intro link₀ hAt₀
      -- The link at hand stands for the old one.
      rcases hSound.grows b i link₀ hAt₀ with ⟨link', hAt', hPrev, hStands⟩
      rw [hAt] at hAt'
      cases hAt'
      rcases hCovers₁.grows hGrows with ⟨l, hMem, hStands', hEnds⟩
      rw [hPrev] at hEnds
      exact ⟨l, hMem, hStands.trans hStands', hEnds⟩

/- All links of an old node are covered at the end. -/
lemma dominates_of_places {view' : LinkView (Option Payload)} {a b : Nat}
    (hState : g.state a = g.state b) (hGrows : Grows old view)
    (hCovers : ∀ i ∈ List.range (view b).length, ∀ link : GssLink (Option Payload),
      (old b)[i]? = some link → Covers g.state old view' a link) :
    Dominates g.state old view' a b := by
  refine dominates_of_covers hState fun link hMem => ?_
  rcases List.mem_iff_getElem?.mp hMem with ⟨i, hAt⟩
  rcases hGrows b i link hAt with ⟨_, hAt', _⟩
  have hBound := (List.getElem?_eq_some_iff.mp hAt').1
  exact hCovers i (mem_range.mpr hBound) link hAt

lemma mergeNodesMutate_lossless (g : Gss (Option Payload)) (old : LinkView (Option Payload))
    (region : Nat → Prop) (fuel : Nat) :
    Lossless g old region (mergeNodesMutate {} g fuel) := by
  induction fuel with
  | zero =>
    intro a b ms ms' active _ _ _ _ _ hMerge
    cases hMerge
  | succ fuel ih =>
    intro a b ms ms' active hLeft hRight hState hSound hActive hMerge
    cases mergeStep_of_mergeNodesMutate hMerge with
    | trivial hTrivial =>
      rcases hTrivial with hSame | hNone | hNone
      · cases hSame
        exact ⟨hSound, Grows.refl _, hSound.grows.dominates g.state a⟩
      · cases hNone
      · cases hNone
    | seen hSeen =>
      refine ⟨hSound, Grows.refl _, ?_⟩
      rcases hSound.done a b hSeen with hMem | hDominates
      · exact absurd rfl (hActive _ hMem).1
      · exact hDominates
    | entered _ hSeen hAdd =>
      have hEntered : Sound g old region ((a, b) :: active) { ms with seen := (a, b) :: ms.seen } :=
        { formed := hSound.formed
          grows := hSound.grows
          clean := hSound.clean
          done := by
            intro x y hMem
            rcases mem_cons.mp hMem with hNew | hOld
            · exact .inl (mem_cons.mpr (.inl hNew))
            rcases hSound.done x y hOld with hIn | hDom
            · exact .inl (mem_cons_of_mem _ hIn)
            · exact .inr hDom }
      have hAbove : ∀ pair ∈ (a, b) :: active, Below ms.links pair.1 a :=
        forall_mem_cons.mpr ⟨Graph.reaches_refl _ a, fun pair hMem => (hActive pair hMem).2⟩
      rcases addLinks_lossless ih (mergeNodesMutate_extending {} g fuel) hAdd
        hEntered hAbove hLeft hRight with
        ⟨hSound', hGrows, hCovers⟩
      have hDominates := dominates_of_places hState hSound.grows hCovers
      refine ⟨⟨hSound'.formed, hSound'.grows, hSound'.clean, ?_⟩, hGrows, hDominates⟩
      intro x y hMem
      rcases hSound'.done x y hMem with hIn | hDom
      · rcases mem_cons.mp hIn with hNew | hOld
        · cases hNew
          exact .inr hDominates
        · exact .inl hOld
      · exact .inr hDom

end LinkMerge

-- The Merge of Two Heads

/- The nodes below one of two heads. -/
def BelowHeads (view : LinkView (Option Payload)) (a b n : Nat) : Prop :=
  Below view a n ∨ Below view b n

variable {g : Gss (Option Payload)}

lemma clean_of_canMergeHeads (hFormed : WellFormed g.size g.links) {a b : GlrStack Nat}
    (hLeft : a.graph < g.size) (hRight : b.graph < g.size) (hCan : gssMainCanMergeHeads g a b) :
    g.state a.graph = g.state b.graph ∧
      LinkMerge.CleanRegion (BelowHeads g.links a.graph b.graph) g.links := by
  unfold gssMainCanMergeHeads at hCan
  simp only [Bool.and_eq_true, beq_iff_eq] at hCan
  rcases hCan with ⟨⟨⟨⟨_, hState⟩, _⟩, hCleanLeft⟩, hCleanRight⟩
  rw [gssNodeClean_iff hFormed.closed hLeft] at hCleanLeft
  rw [gssNodeClean_iff hFormed.closed hRight] at hCleanRight
  refine ⟨hState, fun n hBelow link hMem => ⟨?_, ?_⟩⟩
  · rcases hBelow with hFrom | hFrom
    · exact hCleanLeft n hFrom link hMem
    · exact hCleanRight n hFrom link hMem
  intro m hPrev
  have hEdge : m ∈ predecessors g.links n := mem_predecessors.mpr ⟨link, hMem, hPrev⟩
  rcases hBelow with hFrom | hFrom
  · exact .inl (hFrom.tail hEdge)
  · exact .inr (hFrom.tail hEdge)

lemma Path.clean {state : Nat → StateID} {view : LinkView (Option Payload)} {region : Nat → Prop}
    (hClean : LinkMerge.CleanRegion region view) {n : Nat}
    {path : List (StateID × Option Payload)} (hPath : Path state view n path) (hRegion : region n) :
    CleanPath path := by
  induction hPath with
  | root hMem _ =>
    refine forall_mem_cons.mpr ⟨(hClean _ hRegion _ hMem).1, ?_⟩
    intro entry hNil
    cases hNil
  | step hMem hPrev _ ih =>
    have hLink := hClean _ hRegion _ hMem
    exact forall_mem_cons.mpr ⟨hLink.1, ih (hLink.2 _ hPrev)⟩

lemma mergeHeads_dominates
    (hFormed : WellFormed g.size g.links)
    {a b : Nat}
    (hState : g.state a = g.state b)
    (hClean : LinkMerge.CleanRegion (BelowHeads g.links a b) g.links)
    {pool : Option Preflight}
    {result : MergeResult}
    (hMerge : mergeHeads {} pool g a b = some result)
    (hMerged : result.merged) :
    result.graph.state = g.state ∧ Grows g.links result.graph.links ∧
      Dominates g.state g.links result.graph.links a b := by
  unfold mergeHeads at hMerge
  split at hMerge
  · cases hMerge
  · cases hMerge
    cases hMerged
  split at hMerge
  · cases hMerge
  rename_i merged ms hMutate
  cases hMerge
  subst hMerged
  have hStart : LinkMerge.Sound g g.links (BelowHeads g.links a b) [] { links := g.links } :=
    { formed := hFormed
      grows := Grows.refl g.links
      clean := hClean
      done := by
        intro x y hMem
        cases hMem }
  rcases LinkMerge.mergeNodesMutate_lossless g g.links _ _ a b _ _ [] (.inl (Graph.reaches_refl _
    a)) (.inr (Graph.reaches_refl _ b)) hState hStart (by intro pair hMem; cases hMem) hMutate with
    ⟨_, hGrows, hDominates⟩
  exact ⟨rfl, hGrows, hDominates⟩

/-
  If a merge succeeds, every path from either head to the
  root is matched by one from the first head.
-/
theorem gssMainMerge_loses_no_path
    (g : Gss (Option Payload))
    (hFormed : WellFormed g.size g.links)
    (a b : GlrStack Nat)
    (hLeft : a.graph < g.size)
    (hRight : b.graph < g.size)
    (hCan : gssMainCanMergeHeads g a b = true) :
    ∃ result : MergeResult,
      gssMainMerge g a b = some result ∧
        (result.merged = true →
          ∀ path : List (StateID × Option Payload),
            Path g.state g.links a.graph path ∨ Path g.state g.links b.graph path →
              ∃ path' : List (StateID × Option Payload),
                Path result.graph.state result.graph.links a.graph path' ∧ Matches path path') := by
  rcases clean_of_canMergeHeads hFormed hLeft hRight hCan with ⟨hState, hClean⟩
  have hPool : ∀ pf ∈ (none : Option Preflight), pf.Fresh := by
    simp
  rcases gssMainMergeWithScratch_returns {} hPool hFormed hLeft hRight with ⟨result, hResult, _⟩
  refine ⟨result, hResult, fun hMerged path hPath => ?_⟩
  have hCleanPath : CleanPath path := by
    rcases hPath with hPath | hPath
    · exact hPath.clean hClean (.inl (Graph.reaches_refl _ _))
    · exact hPath.clean hClean (.inr (Graph.reaches_refl _ _))
  have hGraph : result.graph.state = g.state ∧ Grows g.links result.graph.links ∧
      Dominates g.state g.links result.graph.links a.graph b.graph := by
    have hIn : (a.inGraph && b.inGraph) = true := by
      unfold gssMainCanMergeHeads at hCan
      simp only [Bool.and_eq_true] at hCan ⊢
      exact hCan.1.1.1.1.1.1.1.1.1
    unfold gssMainMergeWithScratch at hResult
    rw [if_pos hIn] at hResult
    split_ifs at hResult with hSame
    · cases hResult
      rw [← hSame]
      exact ⟨rfl, Grows.refl _, (Grows.refl _).dominates g.state a.graph⟩
    · exact mergeHeads_dominates hFormed hState hClean hResult hMerged
  rcases hGraph with ⟨hStates, hGrows, hDominates⟩
  rw [hStates]
  rcases hPath with hPath | hPath
  · rcases hGrows.dominates g.state _ path hPath with ⟨path', hPath', hStandIn⟩
    exact ⟨path', hPath', hStandIn.matches hCleanPath⟩
  · rcases hDominates path hPath with ⟨path', hPath', hStandIn⟩
    exact ⟨path', hPath', hStandIn.matches hCleanPath⟩

/- Two heads that differ only below, in the precedence. -/
def twoHeads : Gss (Option Payload) :=
  Gss.ofPushes [(none, 1, none), (some 0, 5, some (newLeafNode 1 3 0 3 5 0)),
    (some 0, 5, some (newLeafNode 2 3 0 3 5 1)), (some 1, 9, some (newLeafNode 3 7 3 4 9 0)),
    (some 2, 9, some (newLeafNode 4 7 3 4 9 0))]

theorem gssMainMerge_loses_no_path_twoHeads :
    gssMainCanMergeHeads twoHeads (twoHeads.version 3) (twoHeads.version 4) = true ∧
      ∃ result : MergeResult,
        gssMainMerge twoHeads (twoHeads.version 3) (twoHeads.version 4) = some result ∧
          (result.merged = true →
            ∀ path : List (StateID × Option Payload),
              Path twoHeads.state twoHeads.links 3 path ∨
                Path twoHeads.state twoHeads.links 4 path →
                ∃ path' : List (StateID × Option Payload),
                  Path result.graph.state result.graph.links 3 path' ∧ Matches path path') :=
  ⟨by decide +kernel,
    gssMainMerge_loses_no_path twoHeads (Gss.wellFormed_ofPushes _ (by decide)) (twoHeads.version 3)
      (twoHeads.version 4) (by decide) (by decide) (by decide +kernel)⟩

/- That merge succeeds. -/
example : (gssMainMerge twoHeads (twoHeads.version 3) (twoHeads.version 4)).map MergeResult.merged
    = some true := by decide +kernel

lemma LeavesOrder.trans {g : Gss (Option Payload)} {first last : MergeResult}
    (hFirst : LeavesOrder g first) (hThen : LeavesOrder first.graph last) :
    LeavesOrder g last where
  size := hThen.size.trans hFirst.size
  state := hThen.state.trans hFirst.state
  depth := hThen.depth.trans hFirst.depth
  formed := hFirst.size ▸ hThen.formed
  fresh := hThen.fresh

/- Merges in a row, each with the pool the last one left, return and leave the graph in order. -/
theorem merges_return
    (env : MergeEnv)
    (pairs : List (GlrStack Nat × GlrStack Nat))
    {s : MergeResult}
    (hPool : ∀ pf ∈ s.pool, pf.Fresh)
    (hFormed : WellFormed s.graph.size s.graph.links)
    (hPairs : ∀ p ∈ pairs, p.1.graph < s.graph.size ∧ p.2.graph < s.graph.size) :
    ∃ last,
      pairs.foldlM (fun s p => gssMainMergeWithScratch env s.pool s.graph p.1 p.2) s = some last ∧
        LeavesOrder s.graph last := by
  induction pairs generalizing s with
  | nil => exact ⟨s, rfl, rfl, rfl, rfl, hFormed, hPool⟩
  | cons p rest ih =>
    rw [forall_mem_cons] at hPairs
    rcases gssMainMergeWithScratch_returns env hPool hFormed hPairs.1.1 hPairs.1.2 with
      ⟨next, hNext, hOrder⟩
    have hSize := hOrder.size
    rcases ih hOrder.fresh (hSize ▸ hOrder.formed) (hSize ▸ hPairs.2) with ⟨last, hLast, hThen⟩
    rw [foldlM_cons, hNext]
    exact ⟨last, hLast, hOrder.trans hThen⟩

/- The two heads, and one that stands on the first node. -/
def threeHeads : Gss (Option Payload) :=
  Gss.ofPushes [(none, 1, none), (some 0, 5, some (newLeafNode 1 3 0 3 5 0)),
    (some 0, 5, some (newLeafNode 2 3 0 3 5 1)), (some 1, 9, some (newLeafNode 3 7 3 4 9 0)),
    (some 2, 9, some (newLeafNode 4 7 3 4 9 0)), (some 0, 9, some (newLeafNode 5 7 3 4 9 0))]

/- The second merge finds the pool that the first one has left. -/
theorem merges_return_threeHeads :
    (gssMainMergeWithScratch {} none threeHeads (threeHeads.version 3)
      (threeHeads.version 4)).map (·.pool.isSome) = some true ∧
      ∃ last,
        [(threeHeads.version 3, threeHeads.version 4),
          (threeHeads.version 3, threeHeads.version 5)].foldlM
          (fun s p => gssMainMergeWithScratch {} s.pool s.graph p.1 p.2)
          ⟨false, threeHeads, none⟩ = some last ∧
          LeavesOrder threeHeads last :=
  ⟨by decide +kernel,
    merges_return {} _ (by simp) (Gss.wellFormed_ofPushes _ (by decide)) (by decide)⟩

------------------------------------------------------------
-- The Merge of Versions over the Graph
------------------------------------------------------------

/- What merges have made of a graph. It is in order, whatever was merged. -/
structure GraphState (g : Gss (Option Payload)) where
  now : MergeResult
  inOrder : LeavesOrder g now

variable {g : Gss (Option Payload)}

/- A version with its head in the graph, for the merge of two heads. -/
def GlrStack.onGraph (v : GlrStack (Fin g.size)) : GlrStack Nat := { v with graph := v.graph.val }

/- A merge of two heads returns, from every state. -/
lemma GraphState.returns
    (s : GraphState g)
    (env : MergeEnv)
    (a b : GlrStack (Fin g.size)) :
    ∃ next,
      gssMainMergeWithScratch env s.now.pool s.now.graph a.onGraph b.onGraph = some next ∧
        LeavesOrder g next := by
  have hSize := s.inOrder.size
  rcases gssMainMergeWithScratch_returns env s.inOrder.fresh (hSize ▸ s.inOrder.formed)
    (a := a.onGraph) (b := b.onGraph) (hSize ▸ a.graph.isLt) (hSize ▸ b.graph.isLt) with
    ⟨next, hNext, hOrder⟩
  exact ⟨next, hNext, s.inOrder.trans hOrder⟩

lemma GraphState.order_of_run
    (s : GraphState g)
    {env : MergeEnv}
    {a b : GlrStack (Fin g.size)}
    {next : MergeResult}
    (hRun : gssMainMergeWithScratch env s.now.pool s.now.graph a.onGraph b.onGraph = some next) :
    LeavesOrder g next := by
  rcases s.returns env a b with ⟨result, hResult, hOrder⟩
  cases hRun.symm.trans hResult
  exact hOrder

/- The merge of two heads, from the graph and the pool that the last one left. -/
def GraphState.merge (env : MergeEnv) (a b : GlrStack (Fin g.size)) : StateM (GraphState g) Bool :=
  fun s =>
    match hRun : gssMainMergeWithScratch env s.now.pool s.now.graph a.onGraph b.onGraph with
    | none => (false, s)
    | some next => (next.merged, ⟨next, s.order_of_run hRun⟩)

/- The walks of the merge over the graph. Hashes, costs and shapes are given. -/
def graphOps (env : MergeEnv) (walks : MergeOps (GraphState g) (Fin g.size)) :
    MergeOps (GraphState g) (Fin g.size) :=
  { walks with
    gssNodeCleanZeroErrorAllLinks := fun v s =>
      (gssNodeCleanZeroErrorAllLinks s.now.graph.size s.now.graph.links v.graph.val, s)
    gssMainMerge := GraphState.merge env }

/-
  The merge of versions over the graph keeps every position and its best version. The graph at its
  end is in order, so that every merge of two heads after it returns as well.
-/
theorem mergeStacks_over_graph
    (globals : MergeGlobals)
    (env : MergeEnv)
    (walks : MergeOps (GraphState g) (Fin g.size))
    (scratch : Option MergeScratch)
    (versions : List (GlrStack (Fin g.size)))
    (hSeam : globals.typeScriptCapOneStructurePreference = false)
    (hLimit : (liveStacks versions).length ≤
      mergeAliveLimitForScratch globals (scratch.getD {}) (liveStacks versions).length)
    (s : GraphState g) :
    let run := mergeStacksWithScratch globals (graphOps env walks) scratch versions s
    (run.1.mergeBudgetStop = false →
        Selection.Covers mergeKeyForStack GlrStack.rank (liveStacks versions) run.1.result) ∧
      LeavesOrder g run.2.now ∧
      ∀ a b : GlrStack (Fin g.size), ∃ next : MergeResult,
        gssMainMergeWithScratch env run.2.now.pool run.2.now.graph a.onGraph b.onGraph =
          some next := by
  intro run
  refine ⟨covers_mergeStacksWithScratch (graphOps env walks) hSeam scratch versions hLimit s,
    run.2.inOrder, fun a b => ?_⟩
  rcases run.2.returns env a b with ⟨next, hNext, _⟩
  exact ⟨next, hNext⟩

end GoTreeSitter
