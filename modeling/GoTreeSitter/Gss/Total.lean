import GoTreeSitter.Gss.MergeSteps

/-
  Both passes of a merge come to an end.

  Main declarations:
    * `SeenPairs`
    * `LinkMerge.Ok` and `Preflight.Ok`
    * `Preflight.canMergeNodes_runs`
    * `gssMainMergeWithScratch_returns`

  A pass enters a pair of nodes at most once, and every call inside of another one follows the entry
  of a new pair. So the number of pairs of nodes bounds the depth of calls.
-/

-- Entered Pairs

namespace GoTreeSitter

open List

/- Every pair of nodes is entered once. -/
structure SeenPairs (size : Nat) (seen : List (Nat × Nat)) : Prop where
  nodup : seen.Nodup
  bound : ∀ pair ∈ seen, pair.1 < size ∧ pair.2 < size

lemma seenPairs_nil (size : Nat) : SeenPairs size [] where
  nodup := nodup_nil
  bound := by
    intro pair hMem
    cases hMem

variable {a b : Nat} {seen : List (Nat × Nat)} {size : Nat}

lemma SeenPairs.cons (hSeen : SeenPairs size seen) (hLeft : a < size) (hRight : b < size)
    (hNew : (a, b) ∉ seen) :
    SeenPairs size ((a, b) :: seen) where
  nodup := nodup_cons.mpr ⟨hNew, hSeen.nodup⟩
  bound := forall_mem_cons.mpr ⟨⟨hLeft, hRight⟩, hSeen.bound⟩

lemma SeenPairs.length_le (hSeen : SeenPairs size seen) : seen.length ≤ size * size := by
  have hSubset : seen ⊆ List.range size ×ˢ List.range size := by
    intro pair hMem
    rw [mem_product, mem_range, mem_range]
    exact hSeen.bound pair hMem
  have hLength := (hSeen.nodup.subperm hSubset).length_le
  rwa [length_product, length_range] at hLength

-- The Mutating Pass

namespace LinkMerge

variable {ms : LinkMerge}

/- The state of a merge in order. -/
structure Ok (size : Nat) (ms : LinkMerge) : Prop where
  formed : WellFormed size ms.links
  seen : SeenPairs size ms.seen

/- A call ends in order, and no pair is forgotten. -/
def Runs (size : Nat) (ms : LinkMerge) (result : Option (Bool × LinkMerge)) : Prop :=
  ∃ (verdict : Bool) (ms' : LinkMerge), result = some (verdict, ms') ∧ Ok size ms' ∧
      ms.seen.length ≤ ms'.seen.length

/- Calls end as long as `fuel` exceeds the pairs left. -/
def Running (size fuel : Nat) (mergeNodes : Recursion) : Prop :=
  ∀ (x y : Option Nat) (ms : LinkMerge), Ok size ms → (∀ a ∈ x, a < size) → (∀ b ∈ y, b < size) →
    size * size < fuel + ms.seen.length → Runs size ms (mergeNodes x y ms)

variable {env : MergeEnv} {g : Gss (Option Payload)} {mergeNodes : Recursion} {fuel : Nat}

lemma runs_refl (hOk : Ok size ms) (verdict : Bool) : Runs size ms (some (verdict, ms)) :=
  ⟨verdict, ms, rfl, hOk, le_refl _⟩

@[simp]
lemma seen_raisePayload (ms : LinkMerge) (n i : Nat) (existing : GssLink (Option Payload))
    (payload : Option Payload) :
    (ms.raisePayload n i existing payload).seen = ms.seen := by
  unfold raisePayload
  split
  · rfl
  · rfl

variable {link : GssLink (Option Payload)}

lemma addLink_returns {n : Nat}
    (hCalls : ∀ existing ∈ ms.links n, ∃ result,
      mergeNodes existing.prev link.prev ms = some result) :
    ∃ result, addLink env g mergeNodes n link ms = some result := by
  unfold addLink
  split
  · exact ⟨_, rfl⟩
  split
  · exact ⟨_, rfl⟩
  split
  · rename_i i existing hFind
    have hAt := mem_indexed.mp (mem_of_find?_eq_some hFind)
    split
    · exact ⟨_, rfl⟩
    rcases hCalls existing (mem_of_getElem? hAt) with ⟨⟨verdict, ms'⟩, hResult⟩
    rw [hResult]
    cases verdict with
    | false => exact ⟨_, rfl⟩
    | true => exact ⟨_, rfl⟩
  · rename_i hFind
    rw [replaceWorst_of_find_none hFind]
    split
    · split
      · exact ⟨_, rfl⟩
      · exact ⟨_, rfl⟩
    · exact ⟨_, rfl⟩

section

variable (hRunning : Running g.size fuel mergeNodes) (hExtending : Extending g.size mergeNodes)
  (hOk : Ok g.size ms)

include hRunning hExtending hOk

lemma addLink_runs {n : Nat} (hLink : ∀ p ∈ link.prev, p < g.size)
    (hFuel : g.size * g.size < fuel + ms.seen.length) :
    Runs g.size ms (addLink env g mergeNodes n link ms) := by
  have hCall : ∀ existing ∈ ms.links n, Runs g.size ms (mergeNodes existing.prev link.prev ms) := by
    intro existing hMem
    refine hRunning _ _ ms hOk ?_ hLink hFuel
    intro p hp
    exact hOk.formed.closed n p (mem_predecessors.mpr ⟨existing, hMem, hp⟩)
  have hReturns : ∃ result, addLink env g mergeNodes n link ms = some result := by
    refine addLink_returns fun existing hMem => ?_
    rcases hCall existing hMem with ⟨_, _, hEq, _, _⟩
    exact ⟨_, hEq⟩
  rcases hReturns with ⟨⟨verdict, ms'⟩, hAdd⟩
  have hStep := addStep_of_addLink hAdd
  have hFormed := (extends_of_addStep hExtending hOk.formed hLink hStep).formed
  have hSeen : SeenPairs g.size ms'.seen ∧ ms.seen.length ≤ ms'.seen.length := by
    have hMerged : ∀ {i : Nat} {existing : GssLink (Option Payload)} {verdict : Bool}
        {ms' : LinkMerge},
        (ms.links n)[i]? = some existing →
          mergeNodes existing.prev link.prev ms = some (verdict, ms') →
          SeenPairs g.size ms'.seen ∧ ms.seen.length ≤ ms'.seen.length := by
      intro i existing verdict ms' hAt hMerge
      rcases hCall existing (mem_of_getElem? hAt) with ⟨_, _, hEq, hOk', hLength⟩
      rw [hMerge] at hEq
      cases hEq
      exact ⟨hOk'.seen, hLength⟩
    cases hStep with
    | refused => exact ⟨hOk.seen, le_refl _⟩
    | dropped => exact ⟨hOk.seen, le_refl _⟩
    | appended => exact ⟨hOk.seen, le_refl _⟩
    | joined =>
      rw [seen_raisePayload]
      exact ⟨hOk.seen, le_refl _⟩
    | failed hAt hMerge => exact hMerged hAt hMerge
    | merged hAt _ _ hMerge =>
      rw [seen_raisePayload]
      exact hMerged hAt hMerge
  rw [hAdd]
  exact ⟨verdict, ms', rfl, ⟨hFormed, hSeen.1⟩, hSeen.2⟩

lemma addLinks_runs {places : List Nat} {mergedAll : Bool}
    (hFuel : g.size * g.size < fuel + ms.seen.length) :
    Runs g.size ms (addLinks env g mergeNodes a b places mergedAll ms) := by
  induction places generalizing mergedAll ms with
  | nil => exact runs_refl hOk mergedAll
  | cons i rest ih =>
    rw [addLinks]
    split
    · exact ih hOk hFuel
    rename_i link hAt
    have hAdd : Runs g.size ms (addLink env g mergeNodes a link ms) :=
      addLink_runs hRunning hExtending hOk (lt_of_at hOk.formed hAt) hFuel
    rcases hAdd with ⟨merged, ms₁, hEq, hOk₁, hLength₁⟩
    rw [hEq]
    rcases ih hOk₁ (by omega) with ⟨verdict, ms₂, hEq₂, hOk₂, hLength₂⟩
    exact ⟨verdict, ms₂, hEq₂, hOk₂, le_trans hLength₁ hLength₂⟩

end

lemma mergeNodesMutate_runs (env : MergeEnv) (g : Gss (Option Payload)) (fuel : Nat) :
    Running g.size fuel (mergeNodesMutate env g fuel) := by
  induction fuel with
  | zero =>
    intro x y ms hOk _ _ hFuel
    have hLength := hOk.seen.length_le
    omega
  | succ fuel ih =>
    intro x y ms hOk hLeft hRight hFuel
    cases x with
    | none => exact runs_refl hOk true
    | some a =>
      cases y with
      | none => exact runs_refl hOk true
      | some b =>
        rw [mergeNodesMutate]
        split
        · exact runs_refl hOk true
        split
        · exact runs_refl hOk false
        split_ifs with hSeen
        · exact runs_refl hOk true
        -- The entered pair pays for the deeper calls.
        have hOk' : Ok g.size { ms with seen := (a, b) :: ms.seen } :=
          ⟨hOk.formed, hOk.seen.cons (hLeft a rfl) (hRight b rfl) hSeen⟩
        have hFuel' : g.size * g.size < fuel + ((a, b) :: ms.seen).length := by
          rw [length_cons]
          omega
        rcases addLinks_runs ih (mergeNodesMutate_extending env g fuel) hOk' hFuel' with
          ⟨verdict, ms', hEq, hOk'', hLength⟩
        refine ⟨verdict, ms', hEq, hOk'', ?_⟩
        exact le_trans (Nat.le_succ _) hLength

end LinkMerge

-- Questions to the Cache

namespace Preflight

variable {pf : Preflight}

/- No entry of the cache is of a later generation. -/
def Fresh (pf : Preflight) : Prop := ∀ (index : Nat) (entry : ReachCacheEntry),
    entry ∈ (pf.reachCache index).1 ∨ entry ∈ (pf.reachCache index).2 →
    entry.generation ≤ pf.reachCacheGeneration

/- Nothing but the cache changes. -/
structure CacheOnly (pf pf' : Preflight) : Prop where
  seen : pf'.seen = pf.seen
  virtualLink : pf'.virtualLink = pf.virtualLink
  reachStrict : pf'.reachStrict = pf.reachStrict
  reachEpoch : pf'.reachEpoch = pf.reachEpoch
  generation : pf'.reachCacheGeneration = pf.reachCacheGeneration
  fresh : pf.Fresh → pf'.Fresh

lemma CacheOnly.refl (pf : Preflight) : CacheOnly pf pf := ⟨rfl, rfl, rfl, rfl, rfl, id⟩

lemma CacheOnly.trans {pf' pf'' : Preflight} (hFirst : CacheOnly pf pf')
    (hSecond : CacheOnly pf' pf'') :
    CacheOnly pf pf'' where
  seen := hSecond.seen.trans hFirst.seen
  virtualLink := hSecond.virtualLink.trans hFirst.virtualLink
  reachStrict := hSecond.reachStrict.trans hFirst.reachStrict
  reachEpoch := hSecond.reachEpoch.trans hFirst.reachEpoch
  generation := hSecond.generation.trans hFirst.generation
  fresh := hSecond.fresh ∘ hFirst.fresh

variable {env : MergeEnv} {g : Gss (Option Payload)}

lemma CacheOnly.view_eq {pf' : Preflight} (hCache : CacheOnly pf pf') (g : Gss (Option Payload)) :
    pf'.view g = pf.view g := by
  unfold view
  rw [hCache.virtualLink]

lemma cacheReach_cacheOnly (env : MergeEnv) (pf : Preflight) (source target : Nat)
    (reachable : Bool) :
    CacheOnly pf (pf.cacheReach env source target reachable) := by
  refine ⟨rfl, rfl, rfl, rfl, rfl, ?_⟩
  intro hFresh index entry hMem
  unfold cacheReach at hMem ⊢
  by_cases hPlace : index = env.cacheIndex source target
  · subst hPlace
    simp only [Function.update_self] at hMem
    rcases hMem with hNew | hOld
    · cases hNew
      exact le_refl _
    · exact hFresh _ entry (.inl hOld)
  · simp only [Function.update_of_ne hPlace] at hMem
    exact hFresh index entry hMem

section

variable (env : MergeEnv) (g : Gss (Option Payload))

lemma canReach_cacheOnly (pf : Preflight) (start : Option Nat) (target : Nat) :
    CacheOnly pf (pf.canReach env g start target).2 := by
  unfold canReach
  split
  · exact CacheOnly.refl pf
  split
  · exact CacheOnly.refl pf
  split
  · exact CacheOnly.refl pf
  split
  · exact CacheOnly.refl pf
  · exact cacheReach_cacheOnly env pf _ _ _

lemma nodesCanMerge_cacheOnly (pf : Preflight) (a b : Option Nat) :
    CacheOnly pf (pf.nodesCanMerge env g a b).2 := by
  unfold nodesCanMerge
  split
  · exact CacheOnly.refl pf
  split
  · rename_i m n _
    have hForth := canReach_cacheOnly env g pf (some m) n
    have hBack := canReach_cacheOnly env g (pf.canReach env g (some m) n).2 (some n) m
    dsimp only
    split
    · exact hForth
    split
    · exact hForth.trans hBack
    · exact hForth.trans hBack
  · exact CacheOnly.refl pf

variable (link : GssLink (Option Payload)) (entries : List (Nat × GssLink (Option Payload)))
  (pf : Preflight)

lemma findLink_cacheOnly : CacheOnly pf (findLink env g link entries pf).2 := by
  induction entries generalizing pf with
  | nil => exact CacheOnly.refl pf
  | cons entry rest ih =>
    rcases entry with ⟨i, existing⟩
    have hStep := nodesCanMerge_cacheOnly env g pf existing.prev link.prev
    unfold findLink
    dsimp only
    split
    · split
      · exact hStep
      · exact hStep.trans (ih _)
    · exact ih pf

lemma findLinks_cacheOnly : CacheOnly pf (findLinks env g link entries pf).2 := by
  induction entries generalizing pf with
  | nil => exact CacheOnly.refl pf
  | cons entry rest ih =>
    rcases entry with ⟨i, existing⟩
    have hStep := nodesCanMerge_cacheOnly env g pf existing.prev link.prev
    unfold findLinks
    split
    · exact hStep.trans (ih _)
    · exact ih pf

end

variable {entries : List (Nat × GssLink (Option Payload))} {link : GssLink (Option Payload)}

lemma mem_of_findLink {entry : Nat × GssLink (Option Payload)}
    (hFound : (findLink env g link entries pf).1 = some entry) :
    entry ∈ entries := by
  induction entries generalizing pf with
  | nil => cases hFound
  | cons first rest ih =>
    unfold findLink at hFound
    dsimp only at hFound
    split at hFound
    · split at hFound
      · cases hFound
        exact mem_cons_self
      · exact mem_cons_of_mem _ (ih hFound)
    · exact mem_cons_of_mem _ (ih hFound)

lemma findLinks_subset : (findLinks env g link entries pf).1 ⊆ entries := by
  induction entries generalizing pf with
  | nil => exact List.Subset.refl []
  | cons first rest ih =>
    unfold findLinks
    dsimp only
    split
    · split
      · exact cons_subset_cons _ ih
      · exact subset_cons_of_subset _ ih
    · exact subset_cons_of_subset _ ih

end Preflight

variable {links : List (Nat × GssLink (Option Payload))} {worst : Nat × GssLink (Option Payload)}

lemma mem_of_foldl_weaker {start : Option (Nat × GssLink (Option Payload))}
    (hWorst : links.foldl weaker start = some worst) :
    start = some worst ∨ worst ∈ links := by
  induction links generalizing start with
  | nil => exact .inl hWorst
  | cons first rest ih =>
    rcases ih hWorst with hStart | hRest
    · unfold weaker at hStart
      split at hStart
      · cases hStart
        exact .inr mem_cons_self
      split at hStart
      · cases hStart
        exact .inr mem_cons_self
      · exact .inl hStart
    · exact .inr (mem_cons_of_mem _ hRest)

lemma mem_of_worstLink (hWorst : worstLink links = some worst) : worst ∈ links := by
  rcases mem_of_foldl_weaker hWorst with hNone | hMem
  · cases hNone
  · exact hMem

-- The Preflight

namespace Preflight

variable {pf : Preflight} {n : Nat} {link : GssLink (Option Payload)}

/- A preflight in order. -/
structure Ok (g : Gss (Option Payload)) (pf : Preflight) : Prop where
  closed : Graph.Closed g.size (predecessors (pf.view g))
  seen : SeenPairs g.size pf.seen
  fresh : pf.Fresh

/- A call ends in order, and no pair is forgotten. -/
def Runs (g : Gss (Option Payload)) (pf : Preflight) (result : Option (Bool × Preflight)) : Prop :=
  ∃ (verdict : Bool) (pf' : Preflight), result = some (verdict, pf') ∧ Ok g pf' ∧
      pf.seen.length ≤ pf'.seen.length

/- Calls end as long as `fuel` exceeds the pairs left. -/
def Running (g : Gss (Option Payload)) (fuel : Nat) (mergeNodes : Recursion) : Prop :=
  ∀ (x y : Option Nat) (pf : Preflight), Ok g pf → (∀ a ∈ x, a < g.size) → (∀ b ∈ y, b < g.size) →
    g.size * g.size < fuel + pf.seen.length → Runs g pf (mergeNodes x y pf)

variable {env : MergeEnv} {g : Gss (Option Payload)} {mergeNodes : Recursion} {fuel : Nat}

lemma Ok.of_cacheOnly {pf' : Preflight} (hOk : Ok g pf) (hCache : CacheOnly pf pf') : Ok g pf' where
  closed := by
    rw [hCache.view_eq]
    exact hOk.closed
  seen := by
    rw [hCache.seen]
    exact hOk.seen
  fresh := hCache.fresh hOk.fresh

lemma Runs.of_cacheOnly {pf' : Preflight} {result : Option (Bool × Preflight)}
    (hCache : CacheOnly pf pf') (hRuns : Runs g pf' result) :
    Runs g pf result := by
  unfold Runs at hRuns ⊢
  rw [hCache.seen] at hRuns
  exact hRuns

lemma runs_refl (hOk : Ok g pf) (verdict : Bool) : Runs g pf (some (verdict, pf)) :=
  ⟨verdict, pf, rfl, hOk, le_refl _⟩

lemma view_addVirtualLink (g : Gss (Option Payload)) (pf : Preflight) (n : Nat)
    (link : GssLink (Option Payload)) :
    (pf.addVirtualLink g n link).view g =
      Function.update (pf.view g) n (pf.view g n ++ [link]) := by
  funext m
  unfold view addVirtualLink
  by_cases hSame : m = n
  · subst hSame
    simp
  · simp only [Function.update_of_ne hSame]

lemma Ok.addVirtualLink (hOk : Ok g pf) (hLink : ∀ p ∈ link.prev, p < g.size) :
    Ok g (pf.addVirtualLink g n link) where
  closed := by
    intro m k hEdge
    rw [view_addVirtualLink, mem_predecessors] at hEdge
    rcases hEdge with ⟨l, hMem, hPrev⟩
    by_cases hSame : m = n
    · subst hSame
      rw [Function.update_self, mem_append, mem_singleton] at hMem
      rcases hMem with hOld | hNew
      · exact hOk.closed m k (mem_predecessors.mpr ⟨l, hOld, hPrev⟩)
      · rw [hNew] at hPrev
        exact hLink k hPrev
    · rw [Function.update_of_ne hSame] at hMem
      exact hOk.closed m k (mem_predecessors.mpr ⟨l, hMem, hPrev⟩)
  seen := hOk.seen
  fresh := hOk.fresh

section

variable (hRunning : Running g fuel mergeNodes)

include hRunning

lemma Running.of_link {i : Nat} {existing : GssLink (Option Payload)} (hOk : Ok g pf)
    (hEntry : (i, existing) ∈ indexed (pf.view g) n) (hLink : ∀ p ∈ link.prev, p < g.size)
    (hFuel : g.size * g.size < fuel + pf.seen.length) :
    Runs g pf (mergeNodes existing.prev link.prev pf) := by
  refine hRunning _ _ pf hOk ?_ hLink hFuel
  intro p hp
  exact hOk.closed n p (LinkMerge.mem_predecessors_of_at (mem_indexed.mp hEntry) hp)

lemma canReplaceWorst_runs (hOk : Ok g pf) (hLink : ∀ p ∈ link.prev, p < g.size)
    (hFuel : g.size * g.size < fuel + pf.seen.length) :
    Runs g pf (canReplaceWorst env g mergeNodes n link pf) := by
  have hCache := findLinks_cacheOnly env g link (indexed (pf.view g) n) pf
  have hOk' := hOk.of_cacheOnly hCache
  refine Runs.of_cacheOnly hCache ?_
  unfold canReplaceWorst
  dsimp only
  split
  · exact runs_refl hOk' false
  rename_i i worst hWorst
  split
  · exact runs_refl hOk' false
  split
  · exact runs_refl hOk' true
  have hEntry := findLinks_subset (mem_of_worstLink hWorst)
  rw [← hCache.view_eq] at hEntry
  rw [← hCache.seen] at hFuel
  exact hRunning.of_link hOk' hEntry hLink hFuel

lemma canAddLink_runs (hOk : Ok g pf) (hLink : ∀ p ∈ link.prev, p < g.size)
    (hFuel : g.size * g.size < fuel + pf.seen.length) :
    Runs g pf (canAddLink env g mergeNodes n link pf) := by
  unfold canAddLink
  split
  · exact runs_refl hOk false
  have hReach := canReach_cacheOnly env g pf link.prev n
  have hFind := hReach.trans (findLink_cacheOnly env g link (indexed ((pf.canReach env g link.prev
      n).2.view g) n) (pf.canReach env g link.prev n).2)
  have hOk' := hOk.of_cacheOnly hFind
  dsimp only
  split
  · exact Runs.of_cacheOnly hReach (runs_refl (hOk.of_cacheOnly hReach) false)
  refine Runs.of_cacheOnly hFind ?_
  rw [← hFind.seen] at hFuel
  split
  · rename_i i existing hFound
    split
    · exact runs_refl hOk' true
    have hEntry := mem_of_findLink hFound
    rw [hReach.view_eq, ← hFind.view_eq] at hEntry
    exact hRunning.of_link hOk' hEntry hLink hFuel
  · split
    · split
      · exact runs_refl hOk' true
      · exact canReplaceWorst_runs hRunning hOk' hLink hFuel
    · exact ⟨true, _, rfl, hOk'.addVirtualLink hLink, le_refl _⟩

lemma canAddLinks_runs {places : List Nat} (hOk : Ok g pf)
    (hFuel : g.size * g.size < fuel + pf.seen.length) :
    Runs g pf (canAddLinks env g mergeNodes a b places pf) := by
  induction places generalizing pf with
  | nil => exact runs_refl hOk true
  | cons i rest ih =>
    rw [canAddLinks]
    split
    · exact ih hOk hFuel
    rename_i link hAt
    have hLink : ∀ p ∈ link.prev, p < g.size := fun p hp => hOk.closed b p
        (LinkMerge.mem_predecessors_of_at hAt hp)
    have hAdd : Runs g pf (canAddLink env g mergeNodes a link pf) :=
      canAddLink_runs hRunning hOk hLink hFuel
    rcases hAdd with ⟨merged, pf₁, hEq, hOk₁, hLength₁⟩
    rw [hEq]
    cases merged with
    | false => exact ⟨false, pf₁, rfl, hOk₁, hLength₁⟩
    | true =>
      rcases ih hOk₁ (by omega) with ⟨verdict, pf₂, hEq₂, hOk₂, hLength₂⟩
      exact ⟨verdict, pf₂, hEq₂, hOk₂, le_trans hLength₁ hLength₂⟩

end

/- A preflight returns with fuel for all pairs left. -/
lemma canMergeNodes_runs (env : MergeEnv) (g : Gss (Option Payload)) (fuel : Nat) :
    Running g fuel (canMergeNodes env g fuel) := by
  induction fuel with
  | zero =>
    intro x y pf hOk _ _ hFuel
    have hLength := hOk.seen.length_le
    omega
  | succ fuel ih =>
    intro x y pf hOk hLeft hRight hFuel
    cases x with
    | none => exact runs_refl hOk true
    | some a =>
      cases y with
      | none => exact runs_refl hOk true
      | some b =>
        rw [canMergeNodes]
        split
        · exact runs_refl hOk true
        have hReach := canReach_cacheOnly env g pf (some b) a
        have hOk' := hOk.of_cacheOnly hReach
        refine Runs.of_cacheOnly hReach ?_
        dsimp only
        split
        · exact runs_refl hOk' false
        split_ifs with hSeen
        · exact runs_refl hOk' true
        rw [← hReach.seen] at hFuel
        -- The entered pair pays for the deeper calls.
        let pf' : Preflight :=
          { (pf.canReach env g (some b) a).2 with
            seen := (a, b) :: (pf.canReach env g (some b) a).2.seen }
        have hEntered : Ok g pf' := ⟨hOk'.closed, hOk'.seen.cons (hLeft a rfl)
            (hRight b rfl) hSeen, hOk'.fresh⟩
        have hFuel' : g.size * g.size < fuel + pf'.seen.length := by
          show _ < fuel + (_ + 1)
          omega
        rcases canAddLinks_runs ih hEntered hFuel' with ⟨verdict, pf'', hEq, hOk'', hLength⟩
        exact ⟨verdict, pf'', hEq, hOk'', le_trans (Nat.le_succ _) hLength⟩

end Preflight

-- The Merge of Two Heads

variable {g : Gss (Option Payload)} {pool : Option Preflight}

/- The graph and the pool a merge leaves behind. -/
structure LeavesOrder (g : Gss (Option Payload)) (result : MergeResult) : Prop where
  size : result.graph.size = g.size
  state : result.graph.state = g.state
  depth : result.graph.depth = g.depth
  formed : WellFormed g.size result.graph.links
  fresh : ∀ pf ∈ result.pool, pf.Fresh

lemma acquirePreflight_ok (hFormed : WellFormed g.size g.links) (hPool : ∀ pf ∈ pool, pf.Fresh) :
    Preflight.Ok g (acquirePreflight pool) := by
  have hView : (acquirePreflight pool).view g = g.links := by
    funext n
    cases pool with
    | none => exact append_nil _
    | some pf => exact append_nil _
  have hSeen : (acquirePreflight pool).seen = [] := by
    cases pool with
    | none => rfl
    | some pf => rfl
  constructor
  · rw [hView]
    exact hFormed.closed
  · rw [hSeen]
    exact seenPairs_nil g.size
  cases pool with
  | none =>
    intro index entry hMem
    rcases hMem with hNone | hNone
    · cases hNone
    · cases hNone
  | some pf =>
    intro index entry hMem
    exact Nat.le_succ_of_le (hPool pf rfl index entry hMem)

lemma mergeHeads_returns (env : MergeEnv) (hPool : ∀ pf ∈ pool, pf.Fresh)
    (hFormed : WellFormed g.size g.links) (hLeft : a < g.size) (hRight : b < g.size) :
    ∃ result, mergeHeads env pool g a b = some result ∧ LeavesOrder g result := by
  have hBoundLeft : ∀ x ∈ some a, x < g.size := by
    rintro x ⟨⟩
    exact hLeft
  have hBoundRight : ∀ x ∈ some b, x < g.size := by
    rintro x ⟨⟩
    exact hRight
  have hFuel : g.size * g.size < mergeFuel g := Nat.lt_succ_self _
  rcases Preflight.canMergeNodes_runs env g (mergeFuel g) (some a) (some b) (acquirePreflight pool)
      (acquirePreflight_ok hFormed hPool) hBoundLeft hBoundRight (Nat.lt_add_right _ hFuel) with
    ⟨can, pf, hCan, hOk, _⟩
  have hStart : LinkMerge.Ok g.size { links := g.links } := ⟨hFormed, seenPairs_nil g.size⟩
  rcases LinkMerge.mergeNodesMutate_runs env g (mergeFuel g)
      (some a) (some b) { links := g.links } hStart hBoundLeft
      hBoundRight (Nat.lt_add_right _ hFuel) with
    ⟨merged, ms, hMerge, hOk', _⟩
  have hFresh : ∀ pf' ∈ some pf, pf'.Fresh := by
    rintro pf' ⟨⟩
    exact hOk.fresh
  unfold mergeHeads
  rw [hCan]
  cases can with
  | false => exact ⟨_, rfl, rfl, rfl, rfl, hFormed, hFresh⟩
  | true =>
    simp only [hMerge]
    exact ⟨_, rfl, rfl, rfl, rfl, hOk'.formed, hFresh⟩

lemma gssMainMergeWithScratch_returns (env : MergeEnv) (hPool : ∀ pf ∈ pool, pf.Fresh)
    (hFormed : WellFormed g.size g.links) {a b : GlrStack Nat} (hLeft : a.graph < g.size)
    (hRight : b.graph < g.size) :
    ∃ result, gssMainMergeWithScratch env pool g a b = some result ∧ LeavesOrder g result := by
  unfold gssMainMergeWithScratch
  split
  · split
    · exact ⟨_, rfl, rfl, rfl, rfl, hFormed, hPool⟩
    · exact mergeHeads_returns env hPool hFormed hLeft hRight
  · exact ⟨_, rfl, rfl, rfl, rfl, hFormed, hPool⟩

end GoTreeSitter
