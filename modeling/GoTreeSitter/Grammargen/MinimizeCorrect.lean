import GoTreeSitter.Grammargen.SignatureCorrect
import GoTreeSitter.Partition.Refine

/-
  The minimization keeps every step of the parser.

  Main declarations:
    * `Represents`
    * `Covers`
    * `mergeCompatibleStateGroups_covers`
    * `minimizeParseStates_keeps_steps`

  Every round refines the groups of the round before. When the number of groups stays the same the
  groups do, so that states of one group have rows that agree up to groups. A group that takes in
  another one keeps its own entries, and these agree with those of the other where both have them.
-/

-- Rows Under Coarser Groups

namespace GoTreeSitter.Grammargen

open List

open Partition
open Store

/- All shifts of a list lead to states. -/
def TargetsBelow (count : Nat) (actions : List LrAction) : Prop :=
  ∀ action ∈ actions, ∀ target : Nat, action.kind = .shift target → target < count

variable {count : Nat} {f g : Nat → Nat} {s t : Nat} {previous : Option (List Nat)}

lemma retargeted_factor {f g h : Nat → Nat} (hFactor : ∀ s, s < count → g s = h (f s))
    {actions : List LrAction} (hTargets : TargetsBelow count actions) :
    retargeted g actions = (retargeted f actions).map (LrAction.retarget h) := by
  unfold retargeted
  rw [Multiset.map_map]
  refine Multiset.map_congr rfl fun action hMem => ?_
  have hStep := LrAction.retarget_retarget f h action
  rw [Function.comp_apply, hStep]
  refine LrAction.retarget_congr fun state hKind => ?_
  exact hFactor state (hTargets action hMem state hKind)

/- Lists that agree up to a map agree up to a coarser one. -/
lemma retargeted_mono (hRefines : Refines (Finset.range count) f g) {left right : List LrAction}
    (hLeft : TargetsBelow count left) (hRight : TargetsBelow count right)
    (hSame : retargeted f left = retargeted f right) :
    retargeted g left = retargeted g right := by
  rcases hRefines.factor with ⟨h, hFactor⟩
  have hBelow : ∀ s, s < count → g s = h (f s) := fun s hs => hFactor s (Finset.mem_range.mpr hs)
  rw [retargeted_factor hBelow hLeft, retargeted_factor hBelow hRight, hSame]

lemma map_mono {α β γ : Type} {f : α → β} {g : α → γ} {a b : Option α} (hSame : a.map f = b.map f)
    (hMono : ∀ x y, a = some x → b = some y → f x = f y → g x = g y) :
    a.map g = b.map g := by
  cases a with
  | none => rw [Option.map_eq_none_iff.mp hSame.symm]
  | some x =>
    rcases Option.map_eq_some_iff.mp hSame.symm with ⟨y, rfl, hEq⟩
    exact congrArg some (hMono x y rfl rfl hEq.symm)

lemma RowsAlike.mono {tables : LrTables} (hRange : tables.InRange)
    (hRefines : Refines (Finset.range tables.stateCount) f g) (hs : s < tables.stateCount)
    (ht : t < tables.stateCount) (hAlike : RowsAlike f tables s t) :
    RowsAlike g tables s t where
  actions := by
    intro sym
    refine map_mono (hAlike.actions sym) fun left right hLeft hRight => ?_
    refine retargeted_mono hRefines ?_ ?_
    · exact hRange.shift s sym left hs hLeft
    · exact hRange.shift t sym right ht hRight
  gotos := by
    intro sym
    refine map_mono (hAlike.gotos sym) fun left right hLeft hRight => ?_
    refine hRefines left ?_ right ?_
    · exact Finset.mem_range.mpr (hRange.goto s sym left hs hLeft)
    · exact Finset.mem_range.mpr (hRange.goto t sym right ht hRight)

-- Strict Groups

open Pool
variable {tables : LrTables}

lemma length_parserStateGroups (tables : LrTables) (previous : Option (List Nat)) :
    (parserStateGroups tables previous).length = tables.stateCount := by
  unfold parserStateGroups
  rw [length_internAll, length_map, length_range]

lemma getElem_groupOf {groups : List Nat} {s : Nat} (hBound : s < groups.length) :
    groups[s]? = some (groupOf (some groups) s) := by
  unfold groupOf
  dsimp only
  rw [getD_eq_getElem?_getD, getElem?_eq_getElem hBound]
  rfl

lemma groupOf_eq_iff (previous : Option (List Nat)) (hs : s < tables.stateCount)
    (ht : t < tables.stateCount) :
    groupOf (some (parserStateGroups tables previous)) s =
      groupOf (some (parserStateGroups tables previous)) t ↔
      RowsAlike (groupOf previous) tables s t := by
  have hValue : ∀ u,
      u < tables.stateCount →
        ((List.range tables.stateCount).map
          (fun state => parserStateSignature tables state previous))[u]? =
          some (parserStateSignature tables u previous) := by
    intro u hu
    rw [getElem?_map, getElem?_range hu]
    rfl
  have hNumber : ∀ u,
      u < tables.stateCount →
        (parserStateGroups tables previous)[u]? =
          some (groupOf (some (parserStateGroups tables previous)) u) := by
    intro u hu
    refine getElem_groupOf ?_
    rw [length_parserStateGroups]
    exact hu
  rw [internAll_eq_iff (hNumber s hs) (hValue s hs) (hNumber t ht) (hValue t ht)]
  exact parserStateSignature_eq_iff tables s t previous

lemma lenGroupSet_eq_card (tables : LrTables) (previous : Option (List Nat)) :
    lenGroupSet (parserStateGroups tables previous) =
      ((Finset.range tables.stateCount).image
        (fun state => parserStateSignature tables state previous)).card := by
  have hInterns := internAll_interns [] ((List.range tables.stateCount).map
      (fun state => parserStateSignature tables state previous))
  have hCount := foldl_max_internAll [] ((List.range tables.stateCount).map
      (fun state => parserStateSignature tables state previous))
  have hPool := hInterns.nodup nodup_nil
  unfold lenGroupSet parserStateGroups
  rw [show (0 : Nat) = ([] : List (List Char)).length from rfl,
    hCount, ← toFinset_card_of_nodup hPool]
  congr 1
  ext signature
  rw [mem_toFinset, Finset.mem_image]
  constructor
  · intro hMem
    rcases hInterns.members signature hMem with hNil | hValue
    · cases hNil
    · rcases mem_map.mp hValue with ⟨s, hs, hEq⟩
      exact ⟨s, Finset.mem_range.mpr (mem_range.mp hs), hEq⟩
  · rintro ⟨s, hs, rfl⟩
    refine mem_internAll (mem_map_of_mem ?_)
    exact mem_range.mpr (Finset.mem_range.mp hs)

/- Groups that are those of the rows up to themselves. -/
def Congruent (tables : LrTables) (groups : List Nat) : Prop :=
  ∀ s t : Nat, s < tables.stateCount → t < tables.stateCount → (groupOf (some groups) s = groupOf
    (some groups) t ↔ RowsAlike (groupOf (some groups)) tables s t)

lemma refines_of_next
    (hNext : ∀ s t,
      s < tables.stateCount → t < tables.stateCount →
        RowsAlike (groupOf (some (parserStateGroups tables previous))) tables s t →
        RowsAlike (groupOf previous) tables s t) :
    Refines (Finset.range tables.stateCount)
      (groupOf (some (parserStateGroups tables (some (parserStateGroups tables previous)))))
      (groupOf (some (parserStateGroups tables previous))) := by
  intro s hs t ht hSame
  rw [Finset.mem_range] at hs ht
  rw [groupOf_eq_iff _ hs ht] at hSame ⊢
  exact hNext s t hs ht hSame

lemma card_groups (tables : LrTables) (previous : Option (List Nat)) :
    lenGroupSet (parserStateGroups tables previous) =
      ((Finset.range tables.stateCount).image
        (groupOf (some (parserStateGroups tables previous)))).card := by
  rw [lenGroupSet_eq_card]
  have hSame : ∀ s t,
      s < tables.stateCount → t < tables.stateCount →
        (parserStateSignature tables s previous = parserStateSignature tables t previous ↔
          groupOf (some (parserStateGroups tables previous)) s =
            groupOf (some (parserStateGroups tables previous)) t) := fun s t hs ht =>
    (parserStateSignature_eq_iff tables s t previous).trans (groupOf_eq_iff previous hs ht).symm
  refine le_antisymm ?_ ?_
  · refine Refines.card_le ?_
    intro s hs t ht hEq
    exact (hSame s t (Finset.mem_range.mp hs) (Finset.mem_range.mp ht)).mpr hEq
  refine Refines.card_le ?_
  intro s hs t ht hEq
  exact (hSame s t (Finset.mem_range.mp hs) (Finset.mem_range.mp ht)).mp hEq

/-
  The rounds come to an end. Every round but the last finds more groups, and there are no more
  groups than states.
-/
lemma refineGroups_congruent
    (hRange : tables.InRange)
    {fuel : Nat}
    (hNext : ∀ s t,
      s < tables.stateCount → t < tables.stateCount →
        RowsAlike (groupOf (some (parserStateGroups tables previous))) tables s t →
        RowsAlike (groupOf previous) tables s t)
    (hFuel : tables.stateCount < fuel + lenGroupSet (parserStateGroups tables previous)) :
    ∃ last : Option (List Nat),
      refineGroups tables fuel (parserStateGroups tables previous) =
        some (parserStateGroups tables last) ∧
        Congruent tables (parserStateGroups tables last) := by
  induction fuel generalizing previous with
  | zero =>
    rw [card_groups] at hFuel
    have hCard := Finset.card_image_le (s := Finset.range tables.stateCount)
        (f := groupOf (some (parserStateGroups tables previous)))
    rw [Finset.card_range] at hCard
    omega
  | succ fuel ih =>
    have hRefines := refines_of_next hNext
    rw [refineGroups]
    split_ifs with hCount
    · refine ⟨_, rfl, fun s t hs ht => ?_⟩
      rw [card_groups, card_groups] at hCount
      have hBack := hRefines.eq_of_card hCount
      rw [groupOf_eq_iff _ hs ht]
      exact ⟨RowsAlike.mono hRange hBack hs ht, RowsAlike.mono hRange hRefines hs ht⟩
    · have hMore := hRefines.card_le
      rw [← card_groups, ← card_groups] at hMore
      refine ih ?_ (by omega)
      intro s t hs ht
      exact RowsAlike.mono hRange hRefines hs ht

lemma strictGroups_congruent (hRange : tables.InRange) :
    ∃ last : Option (List Nat),
      strictGroups tables = some (parserStateGroups tables last) ∧
        Congruent tables (parserStateGroups tables last) := by
  refine refineGroups_congruent hRange ?_ (by omega)
  intro s t hs ht
  refine RowsAlike.mono hRange ?_ hs ht
  intro x _ y _ _
  rfl

-- Groups with Rows

variable {strict : List Nat}

/-
  The rows of a group stand for those of its states, up to the strict groups of targets. Nothing is
  in the rows that is not in the row of one of the states.
-/
structure Represents (tables : LrTables) (strict : List Nat) (group : ParserStateGroup) : Prop where
  below : ∀ s ∈ group.states, s < tables.stateCount
  closed : ∀ s ∈ group.states, ∀ t : Nat, t < tables.stateCount → groupOf (some strict) s = groupOf
      (some strict) t → t ∈ group.states
  actions : ∀ s ∈ group.states, ∀ (sym : Int) (acts : List LrAction), (tables.actionTable s).get sym
      = some acts → ∃ kept : List LrAction, group.actions.get sym = some kept ∧ retargeted (groupOf
      (some strict)) kept = retargeted (groupOf (some strict)) acts
  gotos : ∀ s ∈ group.states, GotosAlike (groupOf (some strict)) (tables.gotoTable s) group.gotos
  actionFrom : ∀ (sym : Int) (acts : List LrAction), group.actions.get sym = some acts →
      ∃ s ∈ group.states, (tables.actionTable s).get sym = some acts
  gotoFrom : ∀ (sym : Int) (target : Nat), group.gotos.get sym = some target →
      ∃ s ∈ group.states, (tables.gotoTable s).get sym = some target

lemma states_initialGroup (tables : LrTables) (strict : List Nat) (group : Nat) :
    (initialGroup tables strict group).states =
      (List.range tables.stateCount).filter
        (fun state => groupOf (some strict) state == group) := by
  unfold initialGroup groupOf
  dsimp only
  split
  · rename_i hNil
    exact hNil.symm
  · rename_i first rest hCons
    exact hCons.symm

lemma mem_initialGroup {group s : Nat} :
    s ∈ (initialGroup tables strict group).states ↔
      s < tables.stateCount ∧ groupOf (some strict) s = group := by
  rw [states_initialGroup, mem_filter, mem_range, beq_iff_eq]

lemma rows_initialGroup
    (tables : LrTables)
    (strict : List Nat)
    (group : Nat) :
    (initialGroup tables strict group).states = [] ∧
      (initialGroup tables strict group).actions = .empty ∧
      (initialGroup tables strict group).gotos = .empty ∨
      ∃ first ∈ (initialGroup tables strict group).states,
        (initialGroup tables strict group).actions = tables.actionTable first ∧
          (initialGroup tables strict group).gotos = tables.gotoTable first := by
  unfold initialGroup
  dsimp only
  split
  · exact .inl ⟨rfl, rfl, rfl⟩
  · rename_i first rest _
    exact .inr ⟨first, mem_cons_self, rfl, rfl⟩

lemma initialGroup_represents (hCongruent : Congruent tables strict) (group : Nat) :
    Represents tables strict (initialGroup tables strict group) := by
  have hAlike : ∀ s ∈ (initialGroup tables strict group).states,
      ∀ t ∈ (initialGroup tables strict group).states,
        RowsAlike (groupOf (some strict)) tables s t := by
    intro s hs t ht
    rw [mem_initialGroup] at hs ht
    exact (hCongruent s t hs.1 ht.1).mp (hs.2.trans ht.2.symm)
  refine ⟨?_, ?_, ?_, ?_, ?_, ?_⟩
  · intro s hs
    exact (mem_initialGroup.mp hs).1
  · intro s hs t ht hSame
    exact mem_initialGroup.mpr ⟨ht, hSame.symm.trans (mem_initialGroup.mp hs).2⟩
  · intro s hs sym acts hActs
    rcases rows_initialGroup tables strict group with ⟨hNil, _⟩ | ⟨first, hFirst, hActions, _⟩
    · simp [hNil] at hs
    have hEntry := (hAlike s hs first hFirst).actions sym
    rw [hActs] at hEntry
    rw [hActions]
    exact Option.map_eq_some_iff.mp hEntry.symm
  · intro s hs
    rcases rows_initialGroup tables strict group with ⟨hNil, _⟩ | ⟨first, hFirst, _, hGotos⟩
    · simp [hNil] at hs
    · rw [hGotos]
      exact (hAlike s hs first hFirst).gotos
  · intro sym acts hActs
    rcases rows_initialGroup tables strict group with
      ⟨_, hActions, _⟩ | ⟨first, hFirst, hActions, _⟩
    · simp [hActions] at hActs
    · rw [hActions] at hActs
      exact ⟨first, hFirst, hActs⟩
  · intro sym target hTarget
    rcases rows_initialGroup tables strict group with ⟨_, _, hGotos⟩ | ⟨first, hFirst, _, hGotos⟩
    · simp [hGotos] at hTarget
    · rw [hGotos] at hTarget
      exact ⟨first, hFirst, hTarget⟩

/- What compatible groups agree on. -/
structure Compatible (strict : List Nat) (left right : ParserStateGroup) : Prop where
  gotos : GotosAlike (groupOf (some strict)) left.gotos right.gotos
  actions : ∀ (sym : Int) (l r : List LrAction), left.actions.get sym = some l → right.actions.get
      sym = some r → retargeted (groupOf (some strict)) l = retargeted (groupOf (some strict)) r

lemma compatible_of_stateGroupsCompatible {left right : ParserStateGroup} {ng : TerminalInfo}
    (hTest : stateGroupsCompatible left right strict ng) :
    Compatible strict left right := by
  unfold stateGroupsCompatible at hTest
  simp only [Bool.and_eq_true, beq_iff_eq, decide_eq_true_eq] at hTest
  rcases hTest with ⟨⟨⟨hCard, hGotos⟩, hActions⟩, _⟩
  have hSubset : left.gotos.keys ⊆ right.gotos.keys := by
    intro sym hMem
    have hEntry := hGotos sym hMem
    rw [PartialMap.mem_keys] at hMem ⊢
    rw [← Option.isSome_map (f := groupOf (some strict)), ← hEntry, Option.isSome_map]
    exact hMem
  have hKeys : left.gotos.keys = right.gotos.keys :=
    Finset.eq_of_subset_of_card_le hSubset hCard.symm.le
  constructor
  · intro sym
    by_cases hMem : sym ∈ left.gotos.keys
    · exact hGotos sym hMem
    have hOther := hMem
    rw [hKeys] at hOther
    rw [PartialMap.mem_keys, Option.not_isSome_iff_eq_none] at hMem hOther
    rw [hMem, hOther]
  intro sym l r hl hr
  have hSame := hActions sym ((left.actions.mem_keys sym).mpr (by rw [hl]; rfl))
    ((right.actions.mem_keys sym).mpr (by rw [hr]; rfl))
  rw [hl, hr] at hSame
  unfold sameActionLists at hSame
  simp only [Bool.and_eq_true, beq_iff_eq] at hSame
  exact (actionSignatures_eq_iff l r (some strict)).mp hSame.2

lemma mergeStateGroups_represents {target source : ParserStateGroup}
    (hTarget : Represents tables strict target) (hSource : Represents tables strict source)
    (hCompatible : Compatible strict target source) :
    Represents tables strict (mergeStateGroups target source) := by
  refine ⟨?_, ?_, ?_, ?_, ?_, ?_⟩
  · intro s hs
    rcases mem_append.mp hs with hs | hs
    · exact hTarget.below s hs
    · exact hSource.below s hs
  · intro s hs t ht hSame
    refine mem_append.mpr ?_
    rcases mem_append.mp hs with hs | hs
    · exact .inl (hTarget.closed s hs t ht hSame)
    · exact .inr (hSource.closed s hs t ht hSame)
  · intro s hs sym acts hActs
    rcases mem_append.mp hs with hs | hs
    · rcases hTarget.actions s hs sym acts hActs with ⟨kept, hKept, hSame⟩
      refine ⟨kept, ?_, hSame⟩
      exact Option.or_eq_some_iff.mpr (.inl hKept)
    rcases hSource.actions s hs sym acts hActs with ⟨kept, hKept, hSame⟩
    cases hOwn : target.actions.get sym with
    | none =>
      refine ⟨kept, ?_, hSame⟩
      exact Option.or_eq_some_iff.mpr (.inr ⟨hOwn, hKept⟩)
    | some own =>
      refine ⟨own, ?_, ?_⟩
      · exact Option.or_eq_some_iff.mpr (.inl hOwn)
      · exact (hCompatible.actions sym own kept hOwn hKept).trans hSame
  · intro s hs sym
    rcases mem_append.mp hs with hs | hs
    · exact hTarget.gotos s hs sym
    · exact (hSource.gotos s hs sym).trans (hCompatible.gotos sym).symm
  · intro sym acts hActs
    rcases Option.or_eq_some_iff.mp hActs with hOwn | ⟨_, hOther⟩
    · rcases hTarget.actionFrom sym acts hOwn with ⟨s, hs, hEntry⟩
      exact ⟨s, mem_append_left _ hs, hEntry⟩
    · rcases hSource.actionFrom sym acts hOther with ⟨s, hs, hEntry⟩
      exact ⟨s, mem_append_right _ hs, hEntry⟩
  · intro sym t ht
    rcases hTarget.gotoFrom sym t ht with ⟨s, hs, hEntry⟩
    exact ⟨s, mem_append_left _ hs, hEntry⟩

-- Merging of Groups

variable {groups : List ParserStateGroup} {ng : TerminalInfo}

/- The states of the group with a number. -/
def statesAt (groups : List ParserStateGroup) (index : Nat) : List Nat :=
  (groups[index]?).elim [] ParserStateGroup.states

lemma flatMap_statesAt (groups : List ParserStateGroup) :
    (List.range groups.length).flatMap (statesAt groups) =
      groups.flatMap ParserStateGroup.states := by
  have hMap :
      (List.range groups.length).map (statesAt groups) = groups.map ParserStateGroup.states := by
    refine ext_getElem (by simp) fun i hi _ => ?_
    rw [length_map, length_range] at hi
    rw [getElem_map, getElem_map, getElem_range]
    unfold statesAt
    rw [getElem?_eq_getElem hi]
    rfl
  rw [flatMap_def, flatMap_def, hMap]

/- The merged groups stand for their states, which are those of the groups consumed. -/
structure Merging (tables : LrTables) (strict : List Nat) (groups : List ParserStateGroup)
    (progress : MergeProgress) : Prop where
  represents : ∀ group ∈ progress.merged, Represents tables strict group
  states : (progress.merged.flatMap ParserStateGroup.states).Perm
      (progress.consumed.flatMap (statesAt groups))
  nodup : progress.consumed.Nodup
  below : ∀ index ∈ progress.consumed, index < groups.length

variable {merged : List ParserStateGroup} {progress : MergeProgress}

lemma placeGroup_represents
    (ng : TerminalInfo)
    {candidate : ParserStateGroup}
    (hCandidate : Represents tables strict candidate)
    (hMerged : ∀ group ∈ merged, Represents tables strict group) :
    (∀ group ∈ placeGroup strict ng candidate merged, Represents tables strict group) ∧
      ((placeGroup strict ng candidate merged).flatMap ParserStateGroup.states).Perm
        (candidate.states ++ merged.flatMap ParserStateGroup.states) := by
  induction merged with
  | nil =>
    refine ⟨?_, List.Perm.refl _⟩
    intro group hMem
    rw [placeGroup, mem_singleton] at hMem
    rw [hMem]
    exact hCandidate
  | cons target rest ih =>
    have hTarget := hMerged target mem_cons_self
    have hRest : ∀ group ∈ rest, Represents tables strict group := fun group hMem =>
        hMerged group (mem_cons_of_mem target hMem)
    rcases ih hRest with ⟨ihRepresents, ihStates⟩
    rw [placeGroup]
    split_ifs with hTest
    · have hCompatible := compatible_of_stateGroupsCompatible hTest.2
      constructor
      · intro group hMem
        rcases mem_cons.mp hMem with rfl | hMem
        · exact mergeStateGroups_represents hTarget hCandidate hCompatible
        · exact hRest group hMem
      · rw [flatMap_cons, flatMap_cons, ← append_assoc]
        exact perm_append_comm.append_right _
    constructor
    · intro group hMem
      rcases mem_cons.mp hMem with rfl | hMem
      · exact hTarget
      · exact ihRepresents group hMem
    rw [flatMap_cons, flatMap_cons]
    refine (ihStates.append_left _).trans ?_
    rw [← append_assoc, ← append_assoc]
    exact perm_append_comm.append_right _

lemma Merging.consume
    (hMerging : Merging tables strict groups progress) {group : ParserStateGroup} {index : Nat}
    (hAt : groups[index]? = some group) (hFresh : index ∉ progress.consumed)
    (hRepresents : ∀ group ∈ merged, Represents tables strict group)
    (hStates : (merged.flatMap ParserStateGroup.states).Perm
      (group.states ++ progress.merged.flatMap ParserStateGroup.states)) :
    Merging tables strict groups { merged, consumed := index :: progress.consumed } := by
  refine ⟨hRepresents, ?_, ?_, ?_⟩
  · have hOwn : statesAt groups index = group.states := by
      unfold statesAt
      rw [hAt]
      rfl
    refine hStates.trans ?_
    rw [flatMap_cons, hOwn]
    exact hMerging.states.append_left _
  · exact nodup_cons.mpr ⟨hFresh, hMerging.nodup⟩
  · intro i hi
    rcases mem_cons.mp hi with rfl | hi
    · exact (List.getElem?_eq_some_iff.mp hAt).1
    · exact hMerging.below i hi

lemma placeCandidate_merging (hGroups : ∀ group ∈ groups, Represents tables strict group)
    (hMerging : Merging tables strict groups progress) {candidate : ParserStateGroup × Nat}
    (hMem : candidate ∈ groups.zipIdx) :
    Merging tables strict groups (placeCandidate strict ng progress candidate) := by
  have hAt := mem_zipIdx_iff_getElem?.mp hMem
  unfold placeCandidate
  split_ifs with hFresh
  · exact hMerging
  rcases placeGroup_represents ng (hGroups _ (mem_of_getElem? hAt)) hMerging.represents with
    ⟨hRepresents, hStates⟩
  exact hMerging.consume hAt hFresh hRepresents hStates

lemma mergeCore_merging (hGroups : ∀ group ∈ groups, Represents tables strict group)
    (hMerging : Merging tables strict groups progress) {group : ParserStateGroup × Nat}
    (hMem : group ∈ groups.zipIdx) :
    Merging tables strict groups (mergeCore groups strict ng progress group) := by
  have hAt := mem_zipIdx_iff_getElem?.mp hMem
  unfold mergeCore
  split_ifs with hFresh
  · exact hMerging
  · refine hMerging.consume hAt hFresh ?_ ?_
    · intro other hOther
      rcases mem_append.mp hOther with hOther | hOther
      · exact hMerging.represents other hOther
      · rw [mem_singleton.mp hOther]
        exact hGroups _ (mem_of_getElem? hAt)
    · rw [flatMap_append, flatMap_singleton]
      exact perm_append_comm
  · refine List.foldlRecOn _ _ hMerging ?_
    intro before hBefore candidate hCandidate
    exact placeCandidate_merging hGroups hBefore (mem_filter.mp hCandidate).1

lemma consumed_foldl
    {step : MergeProgress → ParserStateGroup × Nat → MergeProgress}
    (hGrows : ∀ progress group, progress.consumed ⊆ (step progress group).consumed)
    {items : List (ParserStateGroup × Nat)}
    (hTakes : ∀ progress, ∀ group ∈ items, group.2 ∈ (step progress group).consumed)
    (progress : MergeProgress) :
    progress.consumed ⊆ (items.foldl step progress).consumed ∧
      ∀ group ∈ items, group.2 ∈ (items.foldl step progress).consumed := by
  induction items generalizing progress with
  | nil => exact ⟨List.Subset.refl _, (fun _ hMem => by cases hMem)⟩
  | cons first rest ih =>
    rcases ih (fun progress group hMem => hTakes progress group (mem_cons_of_mem first hMem)) (step
        progress first) with
      ⟨hOld, hRest⟩
    constructor
    · intro i hi
      exact hOld (hGrows progress first hi)
    intro group hMem
    rcases mem_cons.mp hMem with rfl | hMem
    · exact hOld (hTakes progress _ mem_cons_self)
    · exact hRest group hMem

variable (progress : MergeProgress)

lemma consumed_placeCandidate (candidate : ParserStateGroup × Nat) :
    progress.consumed ⊆ (placeCandidate strict ng progress candidate).consumed ∧
      candidate.2 ∈ (placeCandidate strict ng progress candidate).consumed := by
  unfold placeCandidate
  split_ifs with hOld
  · exact ⟨List.Subset.refl _, hOld⟩
  · exact ⟨subset_cons_self _ _, mem_cons_self⟩

lemma consumed_mergeCore (group : ParserStateGroup × Nat) :
    progress.consumed ⊆ (mergeCore groups strict ng progress group).consumed ∧
      (group ∈ groups.zipIdx → group.2 ∈ (mergeCore groups strict ng progress group).consumed) := by
  unfold mergeCore
  split_ifs with hOld
  · exact ⟨List.Subset.refl _, fun _ => hOld⟩
  · exact ⟨subset_cons_self _ _, fun _ => mem_cons_self⟩
  rcases consumed_foldl (fun progress candidate => (consumed_placeCandidate progress candidate).1)
      (fun progress candidate _ => (consumed_placeCandidate progress candidate).2) progress with
    ⟨hOld, hAll⟩
  refine ⟨hOld, fun hMem => hAll group ?_⟩
  exact mem_filter.mpr ⟨hMem, beq_self_eq_true _⟩

/- Groups that stand for all states, each state once. -/
structure Covers (tables : LrTables) (strict : List Nat) (groups : List ParserStateGroup) : Prop
    where
  represents : ∀ group ∈ groups, Represents tables strict group
  states : (groups.flatMap ParserStateGroup.states).Perm (List.range tables.stateCount)

lemma Covers.perm {other : List ParserStateGroup} (hCovers : Covers tables strict groups)
    (hPerm : other.Perm groups) :
    Covers tables strict other where
  represents := fun group hMem =>
    hCovers.represents group (hPerm.mem_iff.mp hMem)
  states := (hPerm.flatMap_right _).trans hCovers.states

lemma mergeCompatibleStateGroups_covers (hCovers : Covers tables strict groups)
    (ng : Option TerminalInfo) :
    Covers tables strict (mergeCompatibleStateGroups groups strict ng) := by
  cases ng with
  | none => exact hCovers
  | some ng =>
    unfold mergeCompatibleStateGroups
    dsimp only
    split
    · exact hCovers
    have hMerging : Merging tables strict groups
        (groups.zipIdx.foldl (mergeCore groups strict ng) {}) := by
      refine List.foldlRecOn _ _ ?_ ?_
      · exact ⟨(fun _ h => by cases h), List.Perm.nil, nodup_nil, (fun _ h => by cases h)⟩
      · intro before hBefore group hMem
        exact mergeCore_merging hCovers.represents hBefore hMem
    rcases consumed_foldl (fun progress group => (consumed_mergeCore progress group).1) (fun
        progress group hMem => (consumed_mergeCore progress group).2 hMem) ({} : MergeProgress) with
      ⟨_, hAll⟩
    refine ⟨hMerging.represents, ?_⟩
    refine (hMerging.states.trans ?_).trans hCovers.states
    rw [← flatMap_statesAt]
    refine List.Perm.flatMap_right _ ?_
    refine (perm_ext_iff_of_nodup hMerging.nodup nodup_range).mpr fun i => ?_
    rw [mem_range]
    refine ⟨hMerging.below i, fun hi => ?_⟩
    refine hAll (groups[i], i) ?_
    exact mem_zipIdx_iff_getElem?.mpr (getElem?_eq_getElem hi)

lemma lt_lenGroupSet {groups : List Nat} {group : Nat} (hMem : group ∈ groups) :
    group < lenGroupSet groups := by
  have hFold : ∀ (rest : List Nat) (count : Nat),
      count ≤ rest.foldl (fun count group => max count (group + 1)) count ∧
        ∀ g ∈ rest, g < rest.foldl (fun count group => max count (group + 1)) count := by
    intro rest
    induction rest with
    | nil =>
      intro count
      exact ⟨le_rfl, (fun _ h => by cases h)⟩
    | cons first rest ih =>
      intro count
      rcases ih (max count (first + 1)) with ⟨hOld, hRest⟩
      rw [foldl_cons]
      refine ⟨(le_max_left _ _).trans hOld, ?_⟩
      intro g hg
      rcases mem_cons.mp hg with rfl | hg
      · exact lt_of_lt_of_le (Nat.lt_succ_self _) ((le_max_right _ _).trans hOld)
      · exact hRest g hg
  exact (hFold groups 0).2 group hMem

lemma initialStateGroups_covers (hLength : strict.length = tables.stateCount)
    (hCongruent : Congruent tables strict) :
    Covers tables strict (initialStateGroups tables strict) := by
  constructor
  · intro group hMem
    rcases mem_map.mp hMem with ⟨i, _, rfl⟩
    exact initialGroup_represents hCongruent i
  unfold initialStateGroups
  rw [flatMap_map]
  refine (perm_ext_iff_of_nodup ?_ nodup_range).mpr ?_
  · rw [nodup_flatMap]
    constructor
    · intro i _
      rw [states_initialGroup]
      exact nodup_range.filter _
    refine nodup_range.imp (fun hNe => ?_)
    intro s hs ht
    rw [mem_initialGroup] at hs ht
    exact hNe (hs.2.symm.trans ht.2)
  intro s
  rw [mem_flatMap, mem_range]
  constructor
  · rintro ⟨i, _, hMem⟩
    exact (mem_initialGroup.mp hMem).1
  intro hs
  refine ⟨groupOf (some strict) s, ?_, mem_initialGroup.mpr ⟨hs, rfl⟩⟩
  rw [← hLength] at hs
  rw [mem_range]
  exact lt_lenGroupSet (mem_of_getElem? (getElem_groupOf hs))

-- New Tables

lemma startGroupFirst_perm (groups : List ParserStateGroup) :
    (startGroupFirst groups).Perm groups := by
  unfold startGroupFirst
  split
  · rename_i k first rest hFind
    split
    · rename_i start hAt
      rcases List.getElem?_eq_some_iff.mp hAt with ⟨hk, hStart⟩
      have hSplit : rest.take k ++ start :: rest.drop (k + 1) = rest := by
        rw [← hStart, List.getElem_cons_drop, List.take_append_drop]
      rw [set_eq_take_append_cons_drop, if_pos hk]
      refine (perm_middle.cons start).trans ?_
      refine (List.Perm.swap first start _).trans ?_
      refine (perm_middle.symm.cons first).trans ?_
      rw [hSplit]
    · exact List.Perm.refl _
  · exact List.Perm.refl _

lemma mem_startGroupFirst {group : ParserStateGroup} (hGroup : group ∈ groups)
    (hStart : 0 ∈ group.states) :
    ∃ first, (startGroupFirst groups)[0]? = some first ∧ 0 ∈ first.states := by
  cases hFind : groups.findIdx? (fun group => group.states.contains 0) with
  | none =>
    have hNone := findIdx?_eq_none_iff.mp hFind group hGroup
    rw [contains_iff_mem.mpr hStart] at hNone
    cases hNone
  | some i =>
    rcases findIdx?_eq_some_iff_getElem.mp hFind with ⟨hBound, hTest, _⟩
    have hAt := getElem?_eq_getElem hBound
    have hMem := contains_iff_mem.mp hTest
    unfold startGroupFirst
    rw [hFind]
    cases i with
    | zero => exact ⟨groups[0], hAt, hMem⟩
    | succ k =>
      cases groups with
      | nil => cases hGroup
      | cons first rest =>
        rw [getElem?_cons_succ] at hAt
        dsimp only
        rw [hAt]
        exact ⟨_, rfl, hMem⟩

lemma stateGroup_eq {s i : Nat} {group : ParserStateGroup}
    (hNodup : (groups.flatMap ParserStateGroup.states).Nodup) (hAt : groups[i]? = some group)
    (hMem : s ∈ group.states) :
    stateGroup groups s = i := by
  have hFold : ∀ (pairs : List (ParserStateGroup × Nat)) (found : Nat),
      (∀ pair ∈ pairs, s ∈ pair.1.states → pair.2 = i) →
        (found = i ∨ ∃ pair ∈ pairs, s ∈ pair.1.states) →
        pairs.foldl (fun found group => if s ∈ group.1.states then group.2 else found) found =
          i := by
    intro pairs
    induction pairs with
    | nil =>
      intro found _ hFound
      rcases hFound with hFound | ⟨pair, hPair, _⟩
      · exact hFound
      · cases hPair
    | cons first rest ih =>
      intro found hOnly hFound
      rw [foldl_cons]
      refine ih _ (fun pair hPair => hOnly pair (mem_cons_of_mem first hPair)) ?_
      split_ifs with hFirst
      · exact .inl (hOnly first mem_cons_self hFirst)
      rcases hFound with hFound | ⟨pair, hPair, hHas⟩
      · exact .inl hFound
      rcases mem_cons.mp hPair with rfl | hPair
      · exact absurd hHas hFirst
      · exact .inr ⟨pair, hPair, hHas⟩
  refine hFold groups.zipIdx 0 ?_ (.inr ⟨(group, i), ?_, hMem⟩)
  · intro pair hPair hHas
    have hPairAt := mem_zipIdx_iff_getElem?.mp hPair
    have hApart := pairwise_iff_getElem.mp (nodup_flatMap.mp hNodup).2
    rcases List.getElem?_eq_some_iff.mp hAt with ⟨hi, rfl⟩
    rcases List.getElem?_eq_some_iff.mp hPairAt with ⟨hj, hPairEq⟩
    rw [← hPairEq] at hHas
    rcases lt_trichotomy pair.2 i with hLt | hEq | hGt
    · exact absurd hMem (hApart _ _ hj hi hLt hHas)
    · exact hEq
    · exact absurd hHas (hApart _ _ hi hj hGt hMem)
  · exact mem_zipIdx_iff_getElem?.mpr hAt

lemma Covers.group (hCovers : Covers tables strict groups) {s : Nat} (hs : s < tables.stateCount) :
    ∃ group,
      groups[stateGroup groups s]? = some group ∧ s ∈ group.states ∧
        Represents tables strict group := by
  have hMem := hCovers.states.mem_iff.mpr (mem_range.mpr hs)
  rcases mem_flatMap.mp hMem with ⟨group, hGroup, hState⟩
  rcases mem_iff_getElem?.mp hGroup with ⟨i, hAt⟩
  have hNodup := hCovers.states.nodup_iff.mpr nodup_range
  rw [stateGroup_eq hNodup hAt hState]
  exact ⟨group, hAt, hState, hCovers.represents group hGroup⟩

/- The groups of the states are unions of strict groups. -/
lemma Covers.refines (hCovers : Covers tables strict groups) :
    Refines (Finset.range tables.stateCount) (groupOf (some strict)) (stateGroup groups) := by
  intro s hs t ht hSame
  rw [Finset.mem_range] at hs ht
  rcases hCovers.group hs with ⟨group, hAt, hMem, hRepresents⟩
  have hNodup := hCovers.states.nodup_iff.mpr nodup_range
  exact (stateGroup_eq hNodup hAt (hRepresents.closed s hMem t ht hSame)).symm

/- The new tables do what the old ones do. -/
structure KeepsSteps (tables new : LrTables) (g : Nat → Nat) : Prop where
  start : g 0 = 0
  below : ∀ s : Nat, s < tables.stateCount → g s < new.stateCount
  actions : ∀ (s : Nat) (sym : Int) (acts : List LrAction), s < tables.stateCount →
      (tables.actionTable s).get sym = some acts → ∃ kept : List LrAction, (new.actionTable (g
      s)).get sym = some kept ∧ (kept : Multiset LrAction) = retargeted g acts
  gotos : ∀ (s : Nat) (sym : Int) (target : Nat), s < tables.stateCount → (tables.gotoTable s).get
      sym = some target → (new.gotoTable (g s)).get sym = some (g target)

/- States merged with their strict group gain no action. -/
def NoGain (tables new : LrTables) (strict : List Nat) (g : Nat → Nat) : Prop :=
  ∀ s : Nat, s < tables.stateCount → (∀ t : Nat, t < tables.stateCount → g t = g s →
      groupOf (some strict) t = groupOf (some strict) s) →
    ∀ sym ∈ (new.actionTable (g s)).keys, sym ∈ (tables.actionTable s).keys

lemma KeepsSteps.refl (tables : LrTables) : KeepsSteps tables tables id where
  start := rfl
  below := fun _ hs => hs
  actions := by
    intro s sym acts _ hActs
    refine ⟨acts, hActs, ?_⟩
    have hId : LrAction.retarget id = id := funext LrAction.retarget_id
    unfold retargeted
    rw [hId, Multiset.map_id]
  gotos := fun _ _ _ _ hTarget => hTarget

variable {group : ParserStateGroup}

lemma actionTable_groupTables {i : Nat} (hAt : groups[i]? = some group) :
    (groupTables groups).actionTable i = remapStateActions group.actions (stateGroup groups) := by
  unfold groupTables
  dsimp only
  rw [hAt]

lemma gotoTable_groupTables {i : Nat} (hAt : groups[i]? = some group) :
    (groupTables groups).gotoTable i = remapStateGotos group.gotos (stateGroup groups) := by
  unfold groupTables
  dsimp only
  rw [hAt]

lemma Covers.keepsSteps (hRange : tables.InRange) (hCovers : Covers tables strict groups)
    (hStart : stateGroup groups 0 = 0) :
    KeepsSteps tables (groupTables groups) (stateGroup groups) where
  start := hStart
  below := by
    intro s hs
    rcases hCovers.group hs with ⟨group, hAt, _⟩
    exact (List.getElem?_eq_some_iff.mp hAt).1
  actions := by
    intro s sym acts hs hActs
    rcases hCovers.group hs with ⟨group, hAt, hMem, hRepresents⟩
    rcases hRepresents.actions s hMem sym acts hActs with ⟨kept, hKept, hSame⟩
    rcases hRepresents.actionFrom sym kept hKept with ⟨t, ht, hFrom⟩
    refine ⟨kept.map (LrAction.retarget (stateGroup groups)), ?_, ?_⟩
    · rw [actionTable_groupTables hAt]
      exact congrArg (Option.map _) hKept
    refine retargeted_mono hCovers.refines ?_ ?_ hSame
    · exact hRange.shift t sym kept (hRepresents.below t ht) hFrom
    · exact hRange.shift s sym acts hs hActs
  gotos := by
    intro s sym target hs hTarget
    rcases hCovers.group hs with ⟨group, hAt, hMem, hRepresents⟩
    have hAlike := hRepresents.gotos s hMem sym
    rw [hTarget] at hAlike
    rcases Option.map_eq_some_iff.mp hAlike.symm with ⟨kept, hKept, hSame⟩
    rcases hRepresents.gotoFrom sym kept hKept with ⟨t, ht, hFrom⟩
    have hKeptBelow := hRange.goto t sym kept (hRepresents.below t ht) hFrom
    have hTargetBelow := hRange.goto s sym target hs hTarget
    rw [gotoTable_groupTables hAt, ← hCovers.refines kept (Finset.mem_range.mpr hKeptBelow)
        target (Finset.mem_range.mpr hTargetBelow) hSame]
    exact congrArg (Option.map (stateGroup groups)) hKept

lemma Covers.noGain (hCongruent : Congruent tables strict) (hCovers : Covers tables strict groups) :
    NoGain tables (groupTables groups) strict (stateGroup groups) := by
  intro s hs hAlone sym hSym
  rcases hCovers.group hs with ⟨group, hAt, hMem, hRepresents⟩
  rw [actionTable_groupTables hAt] at hSym
  have hSome := (group.actions.mem_keys sym).mp hSym
  rcases Option.isSome_iff_exists.mp hSome with ⟨kept, hKept⟩
  rcases hRepresents.actionFrom sym kept hKept with ⟨t, ht, hFrom⟩
  have hBelow := hRepresents.below t ht
  have hNodup := hCovers.states.nodup_iff.mpr nodup_range
  have hStrict := hAlone t hBelow (stateGroup_eq hNodup hAt ht)
  have hAlike := ((hCongruent t s hBelow hs).mp hStrict).actions sym
  rw [hFrom] at hAlike
  rcases Option.map_eq_some_iff.mp hAlike.symm with ⟨acts, hActs, _⟩
  rw [PartialMap.mem_keys, hActs]
  rfl

/- Minimization ends, and its new states do what the old ones did. -/
theorem minimizeParseStates_keeps_steps
    (tables : LrTables)
    (ng : Option TerminalInfo)
    (hRange : tables.InRange) :
    ∃ (strict : List Nat) (new : LrTables) (merged : Nat) (g : Nat → Nat),
      strictGroups tables = some strict ∧ minimizeParseStates tables ng = some (new, merged) ∧
        KeepsSteps tables new g ∧ NoGain tables new strict g := by
  rcases strictGroups_congruent hRange with ⟨last, hStrict, hCongruent⟩
  have hSelf : NoGain tables tables (parserStateGroups tables last) id := fun s _ _ sym hSym => hSym
  have hMerged := mergeCompatibleStateGroups_covers (initialStateGroups_covers
      (length_parserStateGroups tables last) hCongruent) ng
  refine ⟨parserStateGroups tables last, ?_⟩
  unfold minimizeParseStates minimizedGroups
  rw [hStrict]
  split
  · exact ⟨tables, 0, id, rfl, rfl, KeepsSteps.refl tables, hSelf⟩
  rw [Option.map_some, Option.map_some]
  split
  · exact ⟨tables, 0, id, rfl, rfl, KeepsSteps.refl tables, hSelf⟩
  have hCovers := hMerged.perm (startGroupFirst_perm _)
  refine ⟨_, _, _, rfl, rfl, hCovers.keepsSteps hRange ?_, hCovers.noGain hCongruent⟩
  have hZero : 0 < tables.stateCount := by omega
  rcases hMerged.group hZero with ⟨group, hAt, hMem, -⟩
  rcases mem_startGroupFirst (mem_of_getElem? hAt) hMem with ⟨first, hFirst, hStart⟩
  exact stateGroup_eq (hCovers.states.nodup_iff.mpr nodup_range) hFirst hStart

/- Two states with one core that reduce alike before different tokens. -/
def twinRows : List LrRow := [([(1, [{ kind := .shift 1 }]), (2, [{ kind := .shift 2 }])],
    [(3, 3)]),
    ([(1, [{ kind := .reduce, prodIdx := 1 }])], []),
    ([(2, [{ kind := .reduce, prodIdx := 1 }])], []),
    ([(0, [{ kind := .accept }])], [])]

def twinTables : LrTables :=
  { LrTables.ofRows twinRows with compactCoreKeys := ["start", "twin", "twin", "end"] }

/- No text starts both tokens. -/
def twinTerminals : TerminalInfo where
  tokenCount := 3
  externalSymbols := []
  wordSymbolID := 0
  keywordSymbols := []
  startMatchersOverlap := fun _ _ => some false

/- The strict groups keep the two states apart, and they are compatible. -/
theorem minimizeParseStates_keeps_steps_twins :
    ∃ (strict : List Nat) (new : LrTables) (merged : Nat) (g : Nat → Nat),
      strictGroups twinTables = some strict ∧
        minimizeParseStates twinTables (some twinTerminals) = some (new, merged) ∧
        KeepsSteps twinTables new g ∧ NoGain twinTables new strict g := by
  have hRows : (LrTables.ofRows twinRows).InRange := LrTables.inRange_ofRows (by decide)
  exact minimizeParseStates_keeps_steps twinTables (some twinTerminals) ⟨hRows.1, hRows.2⟩

end GoTreeSitter.Grammargen
