import GoTreeSitter.Glr.Merge
import GoTreeSitter.Selection.Best
import GoTreeSitter.Stateful.Always

/-
  The merge keeps every position and its best version.

  Main declarations:
    * `TakesIn`
    * `SlotOk`
    * `always_mergeSlotStep`
    * `merge_keeps_keys_and_best`

  Every routine takes a version in as a step of a selection by key and rank, whatever the walks over
  the graphs answer and whatever they leave behind. The bookkeeping of a slot only has to point at
  survivors of its key.
-/

-- Steps

namespace GoTreeSitter

open List MergeSlot

section

open Selection Stateful

variable {σ γ : Type}

/- A version is taken in by position and rank. -/
def TakesIn (stack : GlrStack γ) (result result' : List (GlrStack γ)) : Prop :=
  Takes mergeKeyForStack GlrStack.rank stack result result'

/- The survivor at an index is in the same position. -/
def SamePosition (stack : GlrStack γ) (result : List (GlrStack γ)) (idx : Nat) : Prop :=
  KeyAt mergeKeyForStack result idx (mergeKeyForStack stack)

variable {stack : GlrStack γ} {result : List (GlrStack γ)} {idx : Nat}

section

variable {incumbent : GlrStack γ} (hSame : SamePosition stack result idx)
  (hAt : result[idx]? = some incumbent)

include hSame hAt

/- A survivor that is not above the version gives way. -/
lemma takesIn_set (hRank : incumbent.rank ≤ stack.rank) :
    TakesIn stack result (result.set idx stack) := by
  rcases hSame with ⟨r, hr, hKey⟩
  rw [hAt] at hr
  cases hr
  exact Takes.replace hAt hKey hRank rfl rfl

/- A survivor that is not below the version stays. -/
lemma takesIn_self (hRank : stack.rank ≤ incumbent.rank) : TakesIn stack result result := by
  rcases hSame with ⟨r, hr, hKey⟩
  rw [hAt] at hr
  cases hr
  exact Takes.turnAway (mem_of_getElem? hAt) hKey hRank

end

lemma takesIn_replaceUnlessBelow (hSame : SamePosition stack result idx) :
    TakesIn stack result (replaceUnlessBelow result stack idx) := by
  rcases id hSame with ⟨incumbent, hAt, _⟩
  unfold replaceUnlessBelow
  rw [hAt, Option.map_some]
  by_cases hBelow : stackCompareMerge stack incumbent = .lt
  · rw [hBelow]
    refine takesIn_self hSame hAt (rank_le_of_merge_ne_gt ?_)
    rw [hBelow]
    decide
  have hRank := rank_le_of_merge_ne_lt hBelow
  cases hCompare : stackCompareMerge stack incumbent with
  | lt => exact absurd hCompare hBelow
  | eq => exact takesIn_set hSame hAt hRank
  | gt => exact takesIn_set hSame hAt hRank

-- Merging into a Graph

variable (ops : MergeOps σ γ) (scratch : MergeScratch)

lemma always_gssMainCanMerge (a b : GlrStack γ) :
    Always (gssMainCanMerge ops a b) (fun eligible => eligible → a.rank = b.rank) := by
  unfold gssMainCanMerge
  split_ifs with hGate
  · simp only [Bool.and_eq_true, beq_iff_eq] at hGate
    intro s _
    unfold GlrStack.rank
    rw [hGate.1.1.1.2, hGate.1.1.2, hGate.1.2]
  · exact always_pure nofun

lemma always_tryGSSMainMerge (a stack : GlrStack γ) :
    Always (tryGSSMainMerge ops scratch a stack)
      (fun outcome => outcome = .merged → a.rank = stack.rank) := by
  have hRefused : GraphMerge.refused = .merged → a.rank = stack.rank := nofun
  unfold tryGSSMainMerge
  split
  · exact always_pure hRefused
  refine always_bind_any fun differ => ?_
  split
  · exact always_pure hRefused
  refine always_bind (always_gssMainCanMerge ops a stack) fun eligible hEligible => ?_
  split_ifs with hGate
  · exact always_pure hRefused
  intro s _
  apply hEligible
  simpa using hGate

/- The attempt takes the version in or changes nothing. -/
lemma always_tryGSSMainMergeResult {idx : Nat} (hSame : SamePosition stack result idx) :
    Always (tryGSSMainMergeResult ops scratch result idx stack)
      (fun out =>
        (out.1 = .merged → TakesIn stack result out.2) ∧ (out.1 ≠ .merged → out.2 = result)) := by
  rcases hSame with ⟨incumbent, hAt, hKey⟩
  unfold tryGSSMainMergeResult
  rw [hAt]
  refine always_bind (always_tryGSSMainMerge ops scratch incumbent stack)
    (fun outcome hOutcome => ?_)
  cases outcome with
  | refused => exact always_pure ⟨nofun, fun _ => rfl⟩
  | preserved => exact always_pure ⟨nofun, fun _ => rfl⟩
  | merged =>
    have hRank := hOutcome rfl
    refine always_pure ⟨fun _ => ?_, fun h => absurd rfl h⟩
    exact Takes.replace hAt hKey hRank.le hKey hRank

/- So does the sweep over the survivors of a slot. -/
lemma always_mergeIntoTracked {indices : List Nat}
    (hSame : ∀ idx ∈ indices, SamePosition stack result idx) :
    Always (mergeIntoTracked ops scratch stack indices result)
      (fun sweep =>
        (sweep.merged → TakesIn stack result sweep.result) ∧
          (sweep.merged = false → sweep.result = result)) := by
  induction indices with
  | nil => exact always_pure ⟨nofun, fun _ => rfl⟩
  | cons idx rest ih =>
    rw [forall_mem_cons] at hSame
    refine always_bind (always_tryGSSMainMergeResult ops scratch hSame.1) ?_
    rintro ⟨outcome, next⟩ ⟨hMerged, hOther⟩
    -- Only a merge changes the survivors.
    by_cases hOutcome : outcome = .merged
    · rw [hOutcome]
      exact always_pure ⟨fun _ => hMerged hOutcome, nofun⟩
    have hNext : next = result := hOther hOutcome
    subst hNext
    cases outcome with
    | merged => exact absurd rfl hOutcome
    | refused => exact always_bind (ih hSame.2) (fun sweep hSweep => always_pure hSweep)
    | preserved => exact always_bind (ih hSame.2) (fun sweep hSweep => always_pure hSweep)

variable (result : List (GlrStack γ))

lemma always_costClassScan (stack : GlrStack γ) (cost : UInt32) (saw : Bool)
    (candidates : List Nat) :
    Always (costClassScan ops result stack cost saw candidates)
      (fun out => ∀ idx, out.1 = some idx → idx ∈ candidates) := by
  induction candidates generalizing saw with
  | nil => exact always_pure (fun idx h => by cases h)
  | cons first rest ih =>
    have hRest : ∀ saw,
        Always (costClassScan ops result stack cost saw rest)
          (fun out => ∀ idx, out.1 = some idx → idx ∈ first :: rest) :=
        fun saw => (ih saw).mono (fun out h idx hIdx =>
      mem_cons_of_mem _ (h idx hIdx))
    unfold costClassScan
    split
    · exact hRest saw
    split
    · refine always_bind_any (fun c => ?_)
      split
      · refine always_pure (fun idx h => ?_)
        cases h
        exact mem_cons_self
      · exact hRest true
    · exact hRest saw

lemma always_cRecoveryCostClass (candidates : List Nat) (stack : GlrStack γ) :
    Always (cRecoveryCostClass ops scratch result candidates stack)
      (fun out => ∀ idx, out.1 = some idx → idx ∈ candidates) := by
  unfold cRecoveryCostClass
  split
  · exact always_bind_any (fun cost => always_costClassScan ops result stack cost false candidates)
  · exact always_pure fun idx h => by cases h

end

-- Merging a Few Versions

section

open Selection Stateful

variable {σ γ : Type} {globals : MergeGlobals} (ops : MergeOps σ γ) (scratch : MergeScratch)
  {stack : GlrStack γ} {result : List (GlrStack γ)}

lemma replaceUnlessBelow_set (result : List (GlrStack γ)) (stack : GlrStack γ) (idx : Nat) :
    replaceUnlessBelow (result.set idx stack) stack idx = result.set idx stack := by
  unfold replaceUnlessBelow
  split
  · rfl
  · rw [set_set]

lemma always_equivalentOr
    (test : StateM σ Bool)
    {rest : StateM σ (SmallVerdict × List (GlrStack γ))}
    {idx : Nat}
    (hSame : SamePosition stack result idx)
    (hRest : Always rest (fun out => TakesIn stack result (out.1.survivors stack out.2))) :
    Always
      (test >>= fun equivalent =>
        if equivalent then pure (SmallVerdict.duplicate idx, result) else rest)
      (fun out => TakesIn stack result (out.1.survivors stack out.2)) := by
  refine always_bind_any fun equivalent => ?_
  split
  · exact always_pure (takesIn_replaceUnlessBelow hSame)
  · exact hRest

/- The contest with a survivor, or going on if it is even. -/
lemma always_contest
    {even : StateM σ (SmallVerdict × List (GlrStack γ))}
    {idx : Nat}
    {incumbent : GlrStack γ}
    {order : Ordering}
    (hSame : SamePosition stack result idx)
    (hAt : result[idx]? = some incumbent)
    (hRank : order ≠ .lt → incumbent.rank ≤ stack.rank)
    (hEven : Always even (fun out => TakesIn stack result (out.1.survivors stack out.2))) :
    Always
      (match some order with
        | some .gt => pure (SmallVerdict.duplicate idx, result.set idx stack)
        | some .lt => pure (SmallVerdict.duplicate idx, result)
        | _ => even)
      (fun out => TakesIn stack result (out.1.survivors stack out.2)) := by
  cases order with
  | lt => exact always_pure (takesIn_replaceUnlessBelow hSame)
  | eq => exact hEven
  | gt =>
    refine always_pure ?_
    change TakesIn stack result (replaceUnlessBelow (result.set idx stack) stack idx)
    rw [replaceUnlessBelow_set]
    exact takesIn_set hSame hAt (hRank (by decide))

lemma samePosition_of_mem_indicesWithKey {idx : Nat}
    (hMem : idx ∈ indicesWithKey result (mergeKeyForStack stack)) :
    SamePosition stack result idx := by
  unfold indicesWithKey at hMem
  rw [mem_filter, beq_iff_eq, Option.map_eq_some_iff] at hMem
  exact hMem.2

section

variable (hSeam : globals.typeScriptCapOneStructurePreference = false)

include hSeam

lemma rank_of_compareCapOne {incumbent : GlrStack γ} :
    (compareCapOne globals scratch stack incumbent ≠ .lt → incumbent.rank ≤ stack.rank) ∧
      (compareCapOne globals scratch stack incumbent ≠ .gt → stack.rank ≤ incumbent.rank) := by
  unfold compareCapOne
  rw [hSeam]
  exact ⟨rank_le_of_capOne_ne_lt, rank_le_of_capOne_ne_gt⟩

variable (equivalenceFrom : Int)

lemma always_smallScan (sameCost : Option Nat) (preserveNewCost : Bool) (met : Nat)
    {candidates : List Nat} (hSame : ∀ idx ∈ candidates, SamePosition stack result idx) :
    Always
      (smallScan globals ops scratch equivalenceFrom stack sameCost preserveNewCost met
        candidates result) (fun out => TakesIn stack result (out.1.survivors stack out.2)) := by
  induction candidates generalizing met with
  | nil => exact always_pure Takes.append
  | cons j rest ih =>
    rw [forall_mem_cons] at hSame
    have hRest := ih (met + 1) hSame.2
    rcases id hSame.1 with ⟨incumbent, hAt, hKey⟩
    refine always_bind (always_tryGSSMainMergeResult ops scratch hSame.1) ?_
    rintro ⟨outcome, next⟩ ⟨hMerged, hOther⟩
    cases outcome with
    | merged => exact always_pure (hMerged rfl)
    | preserved =>
      have hNext : next = result := hOther nofun
      subst hNext
      exact always_pure Takes.append
    | refused =>
      have hNext : next = result := hOther nofun
      subst hNext
      have hEquivalent := always_equivalentOr (equivalentPast ops equivalenceFrom met next stack j)
          hSame.1 hRest
      have hRank := @rank_of_compareCapOne _ _ scratch stack hSeam incumbent
      dsimp only
      split
      · split
        · exact always_pure Takes.append
        split
        · exact hRest
        · rw [hAt, Option.map_some]
          exact always_contest hSame.1 hAt hRank.1 hEquivalent
      · exact hEquivalent

/- One version is taken in. -/
lemma always_smallStep (result : List (GlrStack γ)) (stack : GlrStack γ) :
    Always (smallStep globals ops scratch equivalenceFrom result stack) (TakesIn stack result) := by
  refine always_bind_any ?_
  rintro ⟨sameCost, preserveNewCost⟩
  refine always_bind (always_smallScan ops scratch hSeam equivalenceFrom sameCost preserveNewCost 0
      (fun idx => samePosition_of_mem_indicesWithKey)) (fun out hOut => ?_)
  exact always_pure hOut

/- All versions are covered. -/
lemma always_mergeSmall (alive : List (GlrStack γ)) :
    Always (mergeSmall globals ops scratch equivalenceFrom alive)
      (Selection.Covers mergeKeyForStack GlrStack.rank alive) := by
  refine always_foldlM_all ?_ covers_nil alive
  intro done result stack hCovers
  refine (always_smallStep ops scratch hSeam equivalenceFrom result stack).mono ?_
  exact fun _ hTakes => covers_takes hCovers hTakes

end

-- Slots

variable {γ : Type} {slot : MergeSlot} {result : List (GlrStack γ)} {stack : GlrStack γ}
  {hash : UInt64}

/-
  The indices of a slot point at survivors of its key, and
  a slot with survivors knows a weakest one.
-/
structure SlotOk (slot : MergeSlot) (result : List (GlrStack γ)) : Prop where
  keyed : ∀ idx ∈ slot.trackedIndices, KeyAt mergeKeyForStack result idx slot.key
  worst_mem : ∀ idx : Nat, slot.worstIndex = some idx → idx ∈ slot.trackedIndices
  worst_known : slot.trackedIndices ≠ [] → slot.worstIndex ≠ none

lemma map_fst_setHashFor (idx : Nat) (hash : UInt64) (entries : List (Nat × UInt64)) :
    (setHashFor idx hash entries).map Prod.fst = entries.map Prod.fst := by
  induction entries with
  | nil => rfl
  | cons entry rest ih =>
    unfold setHashFor
    split
    · rfl
    · rw [map_cons, ih, map_cons]

namespace MergeSlot

lemma trackedIndices_eq (slot : MergeSlot) :
    slot.trackedIndices = slot.indices.map Prod.fst ++ slot.extras.map Prod.fst := map_append

variable (slot : MergeSlot) (idx : Nat) (hash : UInt64)

lemma trackedIndices_setHash : (slot.setHash idx hash).trackedIndices = slot.trackedIndices := by
  unfold setHash
  rw [trackedIndices_eq slot]
  split
  · rw [trackedIndices_eq, map_fst_setHashFor]
  · rw [trackedIndices_eq, map_fst_setHashFor]

lemma key_setHash : (slot.setHash idx hash).key = slot.key := by
  unfold setHash
  split
  · rfl
  · rfl

lemma worstIndex_setHash : (slot.setHash idx hash).worstIndex = slot.worstIndex := by
  unfold setHash
  split
  · rfl
  · rfl

end MergeSlot

lemma foldl_worst_mem (result : List (GlrStack γ)) (first : Nat) (rest : List Nat) :
    rest.foldl (fun worst idx => if MergeSlot.below result idx worst then idx else worst)
      first ∈ first :: rest := by
  induction rest generalizing first with
  | nil => exact mem_singleton_self first
  | cons idx rest ih =>
    rw [foldl_cons]
    have hMem := ih (if below result idx first then idx else first)
    rcases mem_cons.mp hMem with hHead | hTail
    · rw [hHead]
      split
      · exact mem_cons_of_mem _ mem_cons_self
      · exact mem_cons_self
    · exact mem_cons_of_mem _ (mem_cons_of_mem _ hTail)

/- Looking for the weakest survivor finds one. -/
lemma slotOk_recomputeWorst
    (hKeyed : ∀ idx ∈ slot.trackedIndices, KeyAt mergeKeyForStack result idx slot.key) :
    SlotOk (slot.recomputeWorst result) result := by
  cases hTracked : slot.trackedIndices with
  | nil =>
    have hWorst : (slot.recomputeWorst result).worstIndex = none := by
      unfold recomputeWorst
      rw [hTracked]
    refine ⟨hKeyed, fun idx hIdx => ?_, fun hSome => ?_⟩
    · simp [hWorst] at hIdx
    · exact absurd hTracked hSome
  | cons first rest =>
    have hWorst :
        ∃ idx ∈ slot.trackedIndices, (slot.recomputeWorst result).worstIndex = some idx := by
      unfold recomputeWorst
      rw [hTracked]
      exact ⟨_, foldl_worst_mem result first rest, rfl⟩
    rcases hWorst with ⟨worst, hMem, hWorst⟩
    refine ⟨hKeyed, fun idx hIdx => ?_, fun _ => ?_⟩
    · rw [hWorst] at hIdx
      cases hIdx
      exact hMem
    · rw [hWorst]
      exact Option.some_ne_none worst

/- The weakest survivor after a new one has come. -/
lemma noteWorst_cases (slot : MergeSlot) (result : List (GlrStack γ)) (idx : Nat) :
    ∃ worst,
      slot.noteWorst result idx = { slot with worstIndex := some worst } ∧
        (worst = idx ∨ slot.worstIndex = some worst) := by
  unfold noteWorst
  split
  · exact ⟨idx, rfl, .inl rfl⟩
  rename_i worst hWorst
  split
  · exact ⟨idx, rfl, .inl rfl⟩
  · exact ⟨worst, by rw [← hWorst], .inr hWorst⟩

variable {slot' : MergeSlot}

lemma slotOk_noteWorst (hOk : SlotOk slot result) (hKey : slot.key = mergeKeyForStack stack)
    (hKey' : slot'.key = slot.key) (hWorst : slot'.worstIndex = slot.worstIndex)
    (hTracked : ∀ idx,
      idx ∈ slot'.trackedIndices ↔ idx ∈ slot.trackedIndices ∨ idx = result.length) :
    SlotOk (slot'.noteWorst (result ++ [stack]) result.length) (result ++ [stack]) := by
  rcases noteWorst_cases slot' (result ++ [stack]) result.length with ⟨worst, hEq, hCases⟩
  rw [hEq]
  refine ⟨fun idx hIdx => ?_, fun idx hIdx => ?_, fun _ => Option.some_ne_none worst⟩
  · rw [hKey']
    rcases (hTracked idx).mp hIdx with hOld | hNew
    · have hTakes : TakesIn stack result (result ++ [stack]) := Takes.append
      exact hTakes.keyAt (hOk.keyed idx hOld)
    · rw [hNew, hKey]
      exact keyAt_length result stack
  cases hIdx
  apply (hTracked worst).mpr
  rcases hCases with hNew | hOld
  · exact .inr hNew
  · rw [hWorst] at hOld
    exact .inl (hOk.worst_mem worst hOld)

-- Taking a Version into a Slot

variable {σ γ : Type} {result : List (GlrStack γ)} {stack : GlrStack γ} {idx : Nat}
  {result' : List (GlrStack γ)}

/- A version is taken in and the slot stays in order. -/
structure SlotTakes (slot : MergeSlot) (stack : GlrStack γ) (result : List (GlrStack γ))
    (out : MergeSlot × List (GlrStack γ)) : Prop where
  takes : TakesIn stack result out.2
  ok : SlotOk out.1 out.2
  key : out.1.key = slot.key

/- A slot of the key of the version, in order. -/
structure SlotFor (stack : GlrStack γ) (slot : MergeSlot) (result : List (GlrStack γ)) : Prop where
  ok : SlotOk slot result
  key : slot.key = mergeKeyForStack stack

lemma SlotFor.samePosition (hFor : SlotFor stack slot result) (hMem : idx ∈ slot.trackedIndices) :
    SamePosition stack result idx := by
  unfold SamePosition
  rw [← hFor.key]
  exact hFor.ok.keyed idx hMem

lemma SlotOk.keyed_takes (hOk : SlotOk slot result) (hTakes : TakesIn stack result result') :
    ∀ idx ∈ slot.trackedIndices, KeyAt mergeKeyForStack result' idx slot.key :=
  fun idx hMem => hTakes.keyAt (hOk.keyed idx hMem)

lemma SlotOk.takes (hOk : SlotOk slot result) (hTakes : TakesIn stack result result') :
    SlotOk slot result' := ⟨hOk.keyed_takes hTakes, hOk.worst_mem, hOk.worst_known⟩

lemma SlotFor.slotTakes_self (hFor : SlotFor stack slot result)
    (hTakes : TakesIn stack result result') :
    SlotTakes slot stack result (slot, result') := ⟨hTakes, hFor.ok.takes hTakes, rfl⟩

lemma key_noteWorst (slot : MergeSlot) (result : List (GlrStack γ)) (idx : Nat) :
    (slot.noteWorst result idx).key = slot.key := by
  rcases noteWorst_cases slot result idx with ⟨_, hEq, _⟩
  rw [hEq]

section

variable (hFor : SlotFor stack slot result)

include hFor

lemma SlotFor.slotTakes_join (hKey : slot'.key = slot.key)
    (hWorst : slot'.worstIndex = slot.worstIndex)
    (hTracked : ∀ idx,
      idx ∈ slot'.trackedIndices ↔ idx ∈ slot.trackedIndices ∨ idx = result.length) :
    SlotTakes slot stack result
      (slot'.noteWorst (result ++ [stack]) result.length, result ++ [stack]) :=
  ⟨Takes.append, slotOk_noteWorst hFor.ok hFor.key hKey hWorst hTracked,
    (key_noteWorst _ _ _).trans hKey⟩

lemma SlotFor.slotTakes_append (hash : UInt64) :
    SlotTakes slot stack result (slot.append result stack hash) := by
  refine hFor.slotTakes_join rfl rfl fun idx => ?_
  rw [trackedIndices_eq, trackedIndices_eq slot]
  simp only [map_append, map_cons, map_nil, mem_append, mem_singleton]
  tauto

/- A version is kept past the capacity. -/
lemma SlotFor.slotTakes_preserve (hash : UInt64) :
    SlotTakes slot stack result (slot.preserveCapOneStack result stack hash) := by
  unfold preserveCapOneStack
  split
  · refine hFor.slotTakes_join rfl rfl (fun idx => ?_)
    rw [trackedIndices_eq, trackedIndices_eq slot]
    simp only [map_append, map_cons, map_nil, mem_append, mem_singleton]
    tauto
  · exact hFor.slotTakes_append hash

lemma SlotFor.slotTakes_set (hTakes : TakesIn stack result (result.set idx stack))
    (hTracked : slot'.trackedIndices = slot.trackedIndices) (hKey : slot'.key = slot.key) :
    SlotTakes slot stack result
      (slot'.recomputeWorst (result.set idx stack), result.set idx stack) := by
  refine ⟨hTakes, slotOk_recomputeWorst ?_, hKey⟩
  rw [hTracked, hKey]
  exact hFor.ok.keyed_takes hTakes

end

lemma SlotOk.setHash (hOk : SlotOk slot result) (idx : Nat) (hash : UInt64) :
    SlotOk (slot.setHash idx hash) result := by
  constructor
  · rw [slot.trackedIndices_setHash, slot.key_setHash]
    exact hOk.keyed
  · rw [slot.trackedIndices_setHash, slot.worstIndex_setHash]
    exact hOk.worst_mem
  · rw [slot.trackedIndices_setHash, slot.worstIndex_setHash]
    exact hOk.worst_known

lemma rank_of_preferOverflowCandidate (candidate incumbent : GlrStack γ)
    (candidateHash incumbentHash : UInt64) :
    if preferOverflowCandidate candidate incumbent candidateHash incumbentHash then
      incumbent.rank ≤ candidate.rank
    else candidate.rank ≤ incumbent.rank := by
  unfold preferOverflowCandidate
  cases hCompare : stackCompareMerge candidate incumbent with
  | lt =>
    apply rank_le_of_merge_ne_gt
    rw [hCompare]
    decide
  | gt =>
    apply rank_le_of_merge_ne_lt
    rw [hCompare]
    decide
  | eq =>
    dsimp only
    split
    · apply rank_le_of_merge_ne_lt
      rw [hCompare]
      decide
    apply rank_le_of_merge_ne_gt
    rw [hCompare]
    decide

section

variable (hFor : SlotFor stack slot result)

include hFor

lemma SlotFor.slotTakes_place (hTakes : TakesIn stack result (result.set idx stack))
    (hash : UInt64) :
    SlotTakes slot stack result
      (if (slot.setHash idx hash).worstIndex = some idx then
        ((slot.setHash idx hash).recomputeWorst (result.set idx stack), result.set idx stack)
      else (slot.setHash idx hash, result.set idx stack)) := by
  split
  · exact hFor.slotTakes_set hTakes (slot.trackedIndices_setHash idx hash)
      (slot.key_setHash idx hash)
  · exact ⟨hTakes, (hFor.ok.takes hTakes).setHash idx hash, slot.key_setHash idx hash⟩

/- A version competes with an equivalent survivor. -/
lemma SlotFor.slotTakes_replaceDuplicate (hMem : idx ∈ slot.trackedIndices) (hash : UInt64) :
    SlotTakes slot stack result (slot.replaceDuplicate result stack hash idx) := by
  have hSame := hFor.samePosition hMem
  rcases id hSame with ⟨incumbent, hAt, _⟩
  unfold replaceDuplicate
  rw [hAt, Option.map_some]
  by_cases hBelow : stackCompareMerge stack incumbent = .lt
  · rw [hBelow]
    apply hFor.slotTakes_self
    refine takesIn_self hSame hAt (rank_le_of_merge_ne_gt ?_)
    rw [hBelow]
    decide
  have hTakes := takesIn_set hSame hAt (rank_le_of_merge_ne_lt hBelow)
  have hPlace := hFor.slotTakes_place hTakes hash
  cases hCompare : stackCompareMerge stack incumbent with
  | lt => exact absurd hCompare hBelow
  | eq => exact hPlace
  | gt => exact hPlace

/- A version competes with the weakest survivor. -/
lemma SlotFor.slotTakes_replaceWorst (hSome : slot.trackedIndices ≠ []) (hash : UInt64) :
    SlotTakes slot stack result (slot.replaceWorst result stack hash) := by
  unfold replaceWorst
  cases hWorst : slot.worstIndex with
  | none => exact absurd hWorst (hFor.ok.worst_known hSome)
  | some worst =>
    have hSame := hFor.samePosition (hFor.ok.worst_mem worst hWorst)
    rcases id hSame with ⟨incumbent, hAt, _⟩
    have hRank := rank_of_preferOverflowCandidate stack incumbent hash
        (((slot.tracked.find? (fun entry => entry.1 == worst)).map Prod.snd).getD 0)
    dsimp only
    rw [hAt]
    dsimp only
    split
    · rename_i hPrefer
      rw [if_pos hPrefer] at hRank
      apply hFor.slotTakes_set (takesIn_set hSame hAt hRank)
      · split
        · exact slot.trackedIndices_setHash worst hash
        · rfl
      split
      · exact slot.key_setHash worst hash
      · rfl
    · rename_i hPrefer
      rw [if_neg hPrefer] at hRank
      exact hFor.slotTakes_self (takesIn_self hSame hAt hRank)

end

end

-- Steps of the Routines with Slots

open Selection Stateful

variable {σ γ : Type} {globals : MergeGlobals} (ops : MergeOps σ γ) (scratch : MergeScratch)
  {slot : MergeSlot} {result : List (GlrStack γ)} {stack : GlrStack γ} {perKeyCap : Nat}

lemma always_findDuplicate (result : List (GlrStack γ)) (stack : GlrStack γ) (hash : UInt64)
    (entries : List (Nat × UInt64)) :
    Always (findDuplicate ops result stack hash entries)
      (fun out => ∀ idx, out.1 = some idx → idx ∈ entries.map Prod.fst) := by
  induction entries with
  | nil => exact always_pure (fun idx h => by cases h)
  | cons entry rest ih =>
    rcases entry with ⟨first, h⟩
    refine always_bind_any fun equivalent => ?_
    split
    · refine always_pure (fun idx hIdx => ?_)
      cases hIdx
      exact mem_cons_self
    · refine always_bind ih (fun out hOut => ?_)
      exact always_pure (fun idx hIdx => mem_cons_of_mem _ (hOut idx hIdx))

lemma always_findDuplicateInSlot (searched : Bool) (slot : MergeSlot) (result : List (GlrStack γ))
    (stack : GlrStack γ) (hash : UInt64) :
    Always (findDuplicateInSlot ops searched slot result stack hash)
      (fun out => ∀ idx, out.1 = some idx → idx ∈ slot.trackedIndices) := by
  unfold findDuplicateInSlot
  split
  · exact always_findDuplicate ops result stack hash slot.tracked
  · exact always_pure fun idx h => by cases h

/-
  An attempt at a survivor of the slot: the version is taken
  in, and otherwise the survivors are as before.
-/
lemma SlotFor.always_attempt
    {β : Type}
    {idx : Nat}
    {rest : GraphMerge × List (GlrStack γ) → StateM σ β}
    {Q : β → Prop}
    (hFor : SlotFor stack slot result)
    (hMem : idx ∈ slot.trackedIndices)
    (hMerged : ∀ next : List (GlrStack γ),
      SlotTakes slot stack result (slot, next) → Always (rest (.merged, next)) Q)
    (hPreserved : Always (rest (.preserved, result)) Q)
    (hRefused : Always (rest (.refused, result)) Q) :
    Always (tryGSSMainMergeResult ops scratch result idx stack >>= rest) Q := by
  refine always_bind (always_tryGSSMainMergeResult ops scratch (hFor.samePosition hMem)) ?_
  rintro ⟨outcome, next⟩ ⟨hTakes, hOther⟩
  cases outcome with
  | merged => exact hMerged next (hFor.slotTakes_self (hTakes rfl))
  | preserved =>
    have hNext : next = result := hOther nofun
    rw [hNext]
    exact hPreserved
  | refused =>
    have hNext : next = result := hOther nofun
    rw [hNext]
    exact hRefused

/- The contest for the one survivor of a key. -/
lemma always_capOneStep (hSeam : globals.typeScriptCapOneStructurePreference = false)
    (hFor : SlotFor stack slot result) (hash : UInt64) :
    Always (capOneStep globals ops scratch slot result stack hash)
      (fun settled => ∀ out : MergeSlot × List (GlrStack γ),
        settled = some out → SlotTakes slot stack result out) := by
  unfold capOneStep
  cases hTracked : slot.trackedIndices with
  | nil => exact always_pure (fun out h => by cases h)
  | cons first rest =>
    refine always_bind (always_cRecoveryCostClass ops scratch result _ stack) ?_
    rintro ⟨sameCost, preserveCost⟩ hClass
    have hMem : sameCost.getD first ∈ slot.trackedIndices := by
      rw [hTracked]
      cases sameCost with
      | none => exact mem_cons_self
      | some idx => exact hClass idx rfl
    have hSame := hFor.samePosition hMem
    rcases id hSame with ⟨incumbent, hAt, _⟩
    have hRank := @rank_of_compareCapOne _ _ scratch stack hSeam incumbent
    dsimp only
    split
    · exact always_pure (fun out hOut => by
        cases hOut
        exact hFor.slotTakes_preserve hash)
    rw [hAt, Option.map_some]
    cases hCompare : compareCapOne globals scratch stack incumbent with
    | gt =>
      rw [hCompare] at hRank
      refine always_pure fun out hOut => ?_
      cases hOut
      exact hFor.slotTakes_set (takesIn_set hSame hAt (hRank.1 (by decide)))
        (slot.trackedIndices_setHash _ hash) (slot.key_setHash _ hash)
    | lt =>
      rw [hCompare] at hRank
      refine always_pure fun out hOut => ?_
      cases hOut
      exact hFor.slotTakes_self (takesIn_self hSame hAt (hRank.2 (by decide)))
    | eq =>
      rw [hCompare] at hRank
      refine hFor.always_attempt ops scratch hMem (fun next hNext => ?_) ?_ ?_
      · refine always_pure (fun out hOut => ?_)
        cases hOut
        exact hNext
      · refine always_pure (fun out hOut => ?_)
        cases hOut
        exact hFor.slotTakes_preserve hash
      dsimp only
      split
      · refine always_pure (fun out hOut => ?_)
        cases hOut
        exact hFor.slotTakes_self (takesIn_self hSame hAt (hRank.2 (by decide)))
      · exact always_pure fun out h => by cases h

lemma always_contestStep (hSeam : globals.typeScriptCapOneStructurePreference = false)
    (perKeyCap : Nat) (hFor : SlotFor stack slot result) (hash : UInt64) :
    Always (contestStep globals ops scratch perKeyCap slot result stack hash)
      (fun settled => ∀ out : MergeSlot × List (GlrStack γ),
        settled = some out → SlotTakes slot stack result out) := by
  unfold contestStep
  split
  · exact always_capOneStep ops scratch hSeam hFor hash
  · exact always_pure fun out h => by cases h

/- An equivalent survivor is merged with or competed with. -/
lemma always_joinDuplicate {idx : Nat} (hFor : SlotFor stack slot result)
    (hMem : idx ∈ slot.trackedIndices) (hash : UInt64) :
    Always (joinDuplicate ops scratch slot result stack hash idx)
      (SlotTakes slot stack result) := by
  refine hFor.always_attempt ops scratch hMem (fun next hNext => ?_) ?_ ?_
  · exact always_pure hNext
  · exact always_pure (hFor.slotTakes_preserve hash)
  · exact always_pure (hFor.slotTakes_replaceDuplicate hMem hash)

lemma SlotFor.always_sweep
    {β : Type}
    {out : Sweep γ → β}
    {rest : Sweep γ → StateM σ β}
    {Q : β → Prop}
    (hFor : SlotFor stack slot result)
    (hMerged : ∀ sweep, SlotTakes slot stack result (slot, sweep.result) → Q (out sweep))
    (hOther : ∀ sweep, sweep.result = result → Always (rest sweep) Q) :
    Always
      (mergeIntoTracked ops scratch stack slot.trackedIndices result >>= fun sweep =>
        if sweep.merged then pure (out sweep) else rest sweep) Q := by
  refine always_bind (always_mergeIntoTracked ops scratch fun idx hMem => hFor.samePosition hMem)
    (fun sweep hSweep => ?_)
  split_ifs with hCase
  · exact always_pure (hMerged sweep (hFor.slotTakes_self (hSweep.1 hCase)))
  · exact hOther sweep (hSweep.2 (Bool.not_eq_true _ ▸ hCase))

/- The slot is full. -/
lemma always_overflowStep (perKeyCap : Nat) (hFor : SlotFor stack slot result)
    (hSome : slot.trackedIndices ≠ []) (hash : UInt64) :
    Always (overflowStep globals ops scratch perKeyCap slot result stack hash)
      (SlotTakes slot stack result) := by
  have hWorst := hFor.slotTakes_replaceWorst hSome hash
  unfold overflowStep
  split
  · refine hFor.always_sweep ops scratch (fun _ hTakes => hTakes) ?_
    intro sweep hResult
    rw [hResult]
    split
    · exact always_pure (hFor.slotTakes_preserve hash)
    · exact always_pure hWorst
  · exact always_pure hWorst

/- A slot with enough survivors has one. -/
lemma trackedIndices_ne_nil (hCap : 0 < perKeyCap) (hFull : ¬ slot.indices.length < perKeyCap) :
    slot.trackedIndices ≠ [] := by
  rw [trackedIndices_eq]
  intro hNil
  rw [append_eq_nil_iff, map_eq_nil_iff] at hNil
  rw [hNil.1, length_nil] at hFull
  exact hFull hCap

lemma always_fillStep (deferExact : Bool) (hCap : 0 < perKeyCap)
    (hFor : SlotFor stack slot result) (hash : UInt64) :
    Always (fillStep globals ops scratch deferExact perKeyCap slot result stack hash)
      (SlotTakes slot stack result) := by
  refine always_bind (always_findDuplicateInSlot ops _ slot result stack hash) ?_
  rintro ⟨duplicate, trips⟩ hFound
  cases duplicate with
  | some idx => exact always_joinDuplicate ops scratch hFor (hFound idx rfl) hash
  | none =>
    dsimp only
    split_ifs with hFull
    · exact always_pure (hFor.slotTakes_append hash)
    · exact always_overflowStep ops scratch perKeyCap hFor (trackedIndices_ne_nil hCap hFull) hash

lemma always_mergeSlotStep (hSeam : globals.typeScriptCapOneStructurePreference = false)
    (deferExact : Bool) (hCap : 0 < perKeyCap) (hFor : SlotFor stack slot result) (hash : UInt64) :
    Always (mergeSlotStep globals ops scratch deferExact perKeyCap slot result stack hash)
      (SlotTakes slot stack result) := by
  refine hFor.always_sweep ops scratch (fun _ hTakes => hTakes) ?_
  intro sweep hResult
  rw [hResult]
  refine always_bind (always_contestStep ops scratch hSeam perKeyCap hFor hash)
    (fun settled hSettled => ?_)
  cases settled with
  | some out => exact always_pure (hSettled out rfl)
  | none => exact always_fillStep ops scratch deferExact hCap hFor hash

lemma always_mergeLargeSlotStep (hCap : 0 < perKeyCap) (hFor : SlotFor stack slot result)
    (hash : UInt64) :
    Always (mergeLargeSlotStep ops scratch perKeyCap slot result stack hash)
      (fun out => SlotTakes slot stack result out.1) := by
  refine hFor.always_sweep ops scratch (fun _ hTakes => hTakes) ?_
  intro sweep hResult
  rw [hResult]
  refine always_bind (always_findDuplicateInSlot ops _ slot result stack hash) ?_
  rintro ⟨duplicate, trips⟩ hFound
  cases duplicate with
  | some idx => exact always_pure (hFor.slotTakes_replaceDuplicate (hFound idx rfl) hash)
  | none =>
    dsimp only
    split_ifs with hFull
    · exact always_pure (hFor.slotTakes_append hash)
    · exact always_pure (hFor.slotTakes_replaceWorst (trackedIndices_ne_nil hCap hFull) hash)

-- Runs

variable {done : List (GlrStack γ)}

/- All versions so far are covered and slots in order. -/
structure MergeOk (done : List (GlrStack γ)) (st : MergeState γ) : Prop where
  covers : Selection.Covers mergeKeyForStack GlrStack.rank done st.result
  slots : ∀ slot ∈ st.slots, SlotOk slot st.result

lemma mergeOk_nil : MergeOk ([] : List (GlrStack γ)) {} :=
  ⟨covers_nil, fun slot hMem => by cases hMem⟩

lemma MergeOk.slotFor {st : MergeState γ} (hOk : MergeOk done st) (stack : GlrStack γ) :
    SlotFor stack (findSlot st.slots (mergeKeyForStack stack)) st.result := by
  unfold findSlot
  cases hFind : st.slots.find? (fun slot => slot.key == mergeKeyForStack stack) with
  | none =>
    refine ⟨⟨fun idx hMem => ?_, fun idx hWorst => ?_, fun hSome => absurd rfl hSome⟩, rfl⟩
    · cases hMem
    · cases hWorst
  | some slot =>
    have hKey := find?_some hFind
    rw [beq_iff_eq] at hKey
    exact ⟨hOk.slots slot (mem_of_find?_eq_some hFind), hKey⟩

lemma mem_storeSlot {slot other : MergeSlot} {slots : List MergeSlot}
    (hMem : other ∈ storeSlot slot slots) :
    other = slot ∨ other ∈ slots := by
  induction slots with
  | nil => exact .inl (mem_singleton.mp hMem)
  | cons first rest ih =>
    unfold storeSlot at hMem
    split at hMem
    · rcases mem_cons.mp hMem with hNew | hOld
      · exact .inl hNew
      · exact .inr (mem_cons_of_mem _ hOld)
    rcases mem_cons.mp hMem with hFirst | hRest
    · exact .inr (hFirst ▸ mem_cons_self)
    rcases ih hRest with hNew | hOld
    · exact .inl hNew
    · exact .inr (mem_cons_of_mem _ hOld)

lemma MergeOk.store {st : MergeState γ} {stack : GlrStack γ} {slot : MergeSlot}
    {out : MergeSlot × List (GlrStack γ)} (hOk : MergeOk done st)
    (hTakes : SlotTakes slot stack st.result out) :
    MergeOk (done ++ [stack]) { result := out.2, slots := storeSlot out.1 st.slots } := by
  refine ⟨covers_takes hOk.covers hTakes.takes, ?_⟩
  intro other hMem
  rcases mem_storeSlot hMem with hNew | hOld
  · rw [hNew]
    exact hTakes.ok
  · exact (hOk.slots other hOld).takes hTakes.takes

lemma always_mergeSlots (hSeam : globals.typeScriptCapOneStructurePreference = false)
    (deferExact : Bool) (hCap : 0 < perKeyCap) (alive : List (GlrStack γ)) :
    Always (mergeSlots globals ops scratch deferExact perKeyCap alive)
      (Selection.Covers mergeKeyForStack GlrStack.rank alive) := by
  refine always_bind (always_foldlM_all ?_ mergeOk_nil alive) fun st hOk => always_pure hOk.covers
  intro done st stack hOk
  refine always_bind_any fun hash => ?_
  refine always_bind (always_mergeSlotStep ops scratch hSeam deferExact hCap (hOk.slotFor stack)
      hash) (fun out hTakes => ?_)
  exact always_pure (hOk.store hTakes)

/- Everything is in order unless the budget has stopped. -/
def LargeMergeOk (done : List (GlrStack γ)) (st : LargeMergeState γ) : Prop :=
  st.stopped = false → MergeOk done st.toMergeState

lemma always_pollBudget (st : LargeMergeState γ) :
    Always (pollBudget ops scratch st) (fun st' => st'.toMergeState = st.toMergeState) := by
  unfold pollBudget
  split
  · split
    · exact always_bind_any fun stop => always_pure rfl
    · exact always_pure rfl
  · exact always_pure rfl

lemma always_mergeLargeStep (hCap : 0 < perKeyCap) {st : LargeMergeState γ} (stack : GlrStack γ)
    (hOk : LargeMergeOk done st) :
    Always (mergeLargeStep ops scratch perKeyCap st stack) (LargeMergeOk (done ++ [stack])) := by
  unfold mergeLargeStep
  split_ifs with hStopped
  · refine always_pure fun hRunning => ?_
    simp [hStopped] at hRunning
  have hStart := hOk (Bool.not_eq_true _ |>.mp hStopped)
  refine always_bind (always_pollBudget ops scratch st) fun st' hPoll => ?_
  split_ifs with hStopped
  · refine always_pure fun hRunning' => ?_
    simp [hStopped] at hRunning'
  rw [← hPoll] at hStart
  refine always_bind_any fun hash => ?_
  refine always_bind (always_mergeLargeSlotStep ops scratch hCap (hStart.slotFor stack) hash)
    (fun out hTakes => ?_)
  exact always_pure fun _ => hStart.store hTakes

lemma always_mergeLarge (hCap : 0 < perKeyCap) (alive : List (GlrStack γ)) :
    Always (mergeStacksWithScratchLargeCap ops scratch perKeyCap alive)
      (fun out =>
        out.mergeBudgetStop = false →
          Selection.Covers mergeKeyForStack GlrStack.rank alive out.result) := by
  have hStart : LargeMergeOk ([] : List (GlrStack γ)) {} := fun _ => mergeOk_nil
  refine always_bind (always_foldlM_all ?_ hStart alive)
    (fun st hOk => always_pure fun hRunning => (hOk hRunning).covers)
  intro done st stack hOk
  exact always_mergeLargeStep ops scratch hCap stack hOk

-- The Merge

lemma effectivePerKeyCap_pos : 0 < effectivePerKeyCap scratch := by
  unfold effectivePerKeyCap maxStacksPerMergeKeyCeiling
  dsimp only
  omega

/- Every routine covers the live versions. -/
lemma always_mergeAlive (hSeam : globals.typeScriptCapOneStructurePreference = false)
    (alive : List (GlrStack γ)) :
    Always (mergeAlive globals ops scratch alive)
      (fun out =>
        out.mergeBudgetStop = false →
          Selection.Covers mergeKeyForStack GlrStack.rank alive out.result) := by
  have hCap := effectivePerKeyCap_pos scratch
  unfold mergeAlive
  dsimp only
  split
  · refine always_bind (P := Selection.Covers mergeKeyForStack GlrStack.rank alive) ?_
      (fun result hCovers => always_pure fun _ => hCovers)
    unfold mergeStacksSmallForLanguage
    split
    · exact always_mergeSmall ops scratch hSeam _ alive
    · exact always_mergeSmall ops scratch hSeam 0 alive
  split
  · exact always_mergeLarge ops scratch hCap alive
  refine always_bind (P := Selection.Covers mergeKeyForStack GlrStack.rank alive) ?_
    (fun result hCovers => always_pure fun _ => hCovers)
  unfold mergeMany
  split
  · exact always_mergeSlots ops scratch hSeam true hCap alive
  · exact always_mergeSlots ops scratch hSeam false hCap alive

lemma covers_mergeStacksWithScratch
    (hSeam : globals.typeScriptCapOneStructurePreference = false)
    (scratch : Option MergeScratch)
    (versions : List (GlrStack γ))
    (hLimit : (liveStacks versions).length ≤
      mergeAliveLimitForScratch globals (scratch.getD {}) (liveStacks versions).length) :
    Always (mergeStacksWithScratch globals ops scratch versions)
      (fun out =>
        out.mergeBudgetStop = false →
          Selection.Covers mergeKeyForStack GlrStack.rank (liveStacks versions) out.result) := by
  unfold mergeStacksWithScratch
  dsimp only
  split
  · exact always_pure fun _ => covers_refl _
  split
  · omega
  · exact always_mergeAlive ops _ hSeam _

/-
  The merge loses no position of a live version, and for
  every position it keeps a version of the best rank.
-/
theorem merge_keeps_keys_and_best
    (globals : MergeGlobals)
    (ops : MergeOps σ γ)
    (scratch : Option MergeScratch)
    (versions : List (GlrStack γ))
    (s : σ)
    (hSeam : globals.typeScriptCapOneStructurePreference = false)
    (hLimit : (liveStacks versions).length ≤
      mergeAliveLimitForScratch globals (scratch.getD {}) (liveStacks versions).length)
    (hBudget : (mergeStacksWithScratch globals ops scratch versions s).1.mergeBudgetStop = false) :
    let result := (mergeStacksWithScratch globals ops scratch versions s).1.result
    (∀ k : GlrMergeKey, (∃ r ∈ result, mergeKeyForStack r = k) ↔
        ∃ t ∈ liveStacks versions, mergeKeyForStack t = k) ∧
      ∀ k : GlrMergeKey, (∃ t ∈ liveStacks versions, mergeKeyForStack t = k) →
        ∃ r ∈ result, mergeKeyForStack r = k ∧
          IsGreatest (GlrStack.rank '' {t | t ∈ liveStacks versions ∧ mergeKeyForStack t = k})
            r.rank := by
  have hCovers := covers_mergeStacksWithScratch ops hSeam scratch versions hLimit s hBudget
  exact ⟨hCovers.exists_key_iff, fun k hKey => hCovers.exists_isGreatest hKey⟩

-- A Merge of Three Versions

/- Walks that find nothing to merge. -/
def MergeOps.inert : MergeOps Unit Unit where
  stackHashForMerge := fun _ => pure 0
  cStackErrorCostForMergeCached := fun _ => pure 0
  gssNodeCleanZeroErrorAllLinks := fun _ => pure false
  gssStacksHaveDistinctMaterializingShapes := fun _ _ => pure false
  gssMainMerge := fun _ _ => pure false
  stackEquivalentForMergeState := fun _ _ _ => pure true
  runtimeMemoryBudgetStop := pure false
  retainTopStacks := fun n versions => versions.take n

/- A version in the graph, by state, score and shift. -/
def GlrStack.plain (topState : StateID) (score : Int) (dead : Bool) : GlrStack Unit where
  graph := ()
  inGraph := true
  depth := 3
  topState := topState
  byteOffset := 8
  score := score
  dead := dead
  accepted := false
  shifted := false
  branchOrder := 0
  cEverErrored := false

/-
  Two live versions in one position and a dead one: the survivor ranks with the better of the two.
-/
theorem merge_keeps_keys_and_best_three :
    let globals : MergeGlobals :=
      { glrFaithfulCapOneMerge := false
        typeScriptCapOneStructurePreference := false
        stackSize := 200, slotSize := 160
        largeSlotSize := 4200 }
    let versions : List (GlrStack Unit) := [.plain 5 2 false, .plain 7 9 true, .plain 5 3 false]
    ∃ r ∈ (mergeStacksWithScratch globals .inert (some { perKeyCap := 1 }) versions ()).1.result,
      mergeKeyForStack r = { state := 5, byteOffset := 8 } ∧
        (GlrStack.plain 5 3 false).rank ≤ r.rank := by
  intro globals versions
  have hLive : .plain 5 3 false ∈ liveStacks versions := by
    simp [versions, liveStacks, GlrStack.plain]
  rcases (merge_keeps_keys_and_best globals .inert
      (some { perKeyCap := 1 }) versions () rfl (by decide)
      rfl).2 { state := 5, byteOffset := 8 }
      ⟨.plain 5 3 false, hLive, rfl⟩ with
    ⟨r, hMem, hKey, hBest⟩
  exact ⟨r, hMem, hKey, hBest.2 ⟨.plain 5 3 false, ⟨hLive, rfl⟩, rfl⟩⟩

end GoTreeSitter
