import GoTreeSitter.Store.PartialMap
import Mathlib.Algebra.Order.Ring.Nat
import Mathlib.Data.Finset.Card
import Mathlib.Data.Prod.Lex

/-
  Sets of references to branches of drop cohorts.

  Main declarations:
    * `dropCohortRefAppendUnique`
    * `dropCohortRefUnion`
    * `dropCohortRefUnion_performs`
    * `dropCohortRefs_run`

  An operation returns its result with the store and the set after it, also if it is rejected.
-/

-- References

namespace GoTreeSitter.ParserCore

open List Spill

structure DropCohortRef where
  owner : Nat := 0
  epoch : Nat := 0
  sequence : Nat := 0
  branch : Nat := 0
  deriving DecidableEq

def dropCohortRefLess (a b : DropCohortRef) : Prop :=
  if a.owner ≠ b.owner then
    a.owner < b.owner
  else if a.epoch ≠ b.epoch then
    a.epoch < b.epoch
  else if a.sequence ≠ b.sequence then
    a.sequence < b.sequence
  else
    a.branch < b.branch

/- The fields in the order in which they are compared. -/
def DropCohortRef.key (ref : DropCohortRef) : Nat ×ₗ Nat ×ₗ Nat ×ₗ Nat :=
  toLex (ref.owner, toLex (ref.epoch, toLex (ref.sequence, ref.branch)))

lemma DropCohortRef.key_injective : Function.Injective DropCohortRef.key := by
  intro a b hKey
  cases a
  cases b
  simp only [key, EmbeddingLike.apply_eq_iff_eq, Prod.mk.injEq] at hKey
  simp [hKey]

instance : LinearOrder DropCohortRef :=
  LinearOrder.lift' DropCohortRef.key DropCohortRef.key_injective

lemma dropCohortRefLess_iff (a b : DropCohortRef) : dropCohortRefLess a b ↔ a < b := by
  show _ ↔ a.key < b.key
  unfold dropCohortRefLess DropCohortRef.key
  simp only [Prod.Lex.toLex_lt_toLex]
  split_ifs <;> omega

instance : DecidableRel dropCohortRefLess :=
  fun a b => decidable_of_iff _ (dropCohortRefLess_iff a b).symm

-- The Model

structure DropCohortRefSet extends SpillSet DropCohortRef where
  blended : Bool := false
  deriving DecidableEq

structure DropCohortLimits where
  maxDropCohortRefs : Nat
  maxDropCohortRefBytes : Nat

variable (limits : DropCohortLimits) (store : List DropCohortRef) (dst set : DropCohortRefSet)

def dropCohortRefCount : Option Nat :=
  if set.spilled = false then
    if set.count ≤ 2 then some set.count else none
  else if set.spillRef = 0 then
    if set.count = 0 then some 0 else none
  else if set.spillRef - 1 + set.count ≤ store.length then
    some set.count
  else
    none

def dropCohortRefAt (index : Nat) : Option DropCohortRef :=
  if set.count ≤ index then
    none
  else if set.spilled = false then
    if 2 ≤ index then none else set.inlineItems[index]?
  else if set.spillRef = 0 then
    none
  else
    store[set.spillRef - 1 + index]?

/- The references of a set, as far as each can be read. -/
def readRefs : Option (List DropCohortRef) :=
  (List.range set.count).mapM (dropCohortRefAt store set)

/- A reference takes 32 bytes. -/
def dropCohortRefPreflight (additional : Nat) : Except String Unit :=
  if additional = 0 then
    .ok ()
  else if limits.maxDropCohortRefs < store.length + additional then
    .error "parser-core phase zero: drop-cohort reference spill cap"
  else if limits.maxDropCohortRefBytes < additional * 32 ∨
      limits.maxDropCohortRefBytes - additional * 32 < store.length * 32 then
    .error "parser-core phase zero: drop-cohort reference byte cap"
  else if 2 ^ 32 - 1 - additional < store.length then
    .error "parser-core phase zero: drop-cohort reference spill index overflow"
  else
    .ok ()

/- The references after one more, and whether there was no place. -/
def dropCohortRefAppendUnique (dst : List DropCohortRef) (ref : DropCohortRef) :
    List DropCohortRef × Bool :=
  if ref ∈ dst then
    (dst, false)
  else if 32 ≤ dst.length then
    (dst, true)
  else
    (dst.orderedInsert dropCohortRefLess ref, false)

def mergeRefs (refs : List DropCohortRef) : List DropCohortRef × Bool :=
  refs.foldl (fun merged ref =>
    let next := dropCohortRefAppendUnique merged.1 ref
    (next.1, merged.2 || next.2)) ([], false)

/- The result of an operation, the store and the set after it. -/
abbrev RefOutcome : Type := Except String Bool × List DropCohortRef × DropCohortRefSet

/- Only flags are changed, and the result says whether one is. -/
def flagsOutcome (flagged : DropCohortRefSet) : RefOutcome :=
  (.ok (decide (flagged ≠ dst)), store, flagged)

/- New references are stored, if the store has room. -/
def spillOutcome (added : List DropCohortRef) (spilled : DropCohortRefSet) : RefOutcome :=
  match dropCohortRefPreflight limits store added.length with
  | .error err => (.error err, store, dst)
  | .ok _ => (.ok true, store ++ added, spilled)

def publishMerged (blended : Bool) (dstRefs : List DropCohortRef)
    (merged : List DropCohortRef × Bool) : RefOutcome :=
  let count := merged.1.length
  if merged.2 = true then
    flagsOutcome store dst { dst with overflowed := true, blended := blended }
  else if count = dst.count ∧ dst.count ≠ 0 ∧ merged.1.take dst.count = dstRefs then
    flagsOutcome store dst { dst with blended := blended }
  else if count ≤ 2 then
    (.ok true, store, { inlineItems := merged.1, count := count, blended := blended })
  else if dst.spilled = true ∧ dst.count = count ∧ merged.1.take dst.count = dstRefs then
    flagsOutcome store dst { dst with blended := blended }
  else if dst.spilled = true ∧ dst.count ≠ 0 ∧ dst.spillRef + dst.count = store.length + 1 ∧
      merged.1.take dst.count = dstRefs ∧ dst.count < count then
    spillOutcome limits store dst (merged.1.drop dst.count)
      { dst with count := count, overflowed := false, spilled := true, blended := blended }
  else
    spillOutcome limits store dst merged.1
      { dst with
        spillRef := (store.length + 1) % 2 ^ 32
        count := count
        overflowed := false
        spilled := true
        blended := blended }

def dropCohortRefUnion (src : DropCohortRefSet) : RefOutcome :=
  if dst.overflowed = true then
    (.ok false, store, dst)
  else
    match dropCohortRefCount store src with
    | none => (.error "parser-core phase zero: invalid drop-cohort reference spill", store, dst)
    | some srcCount =>
      if src.overflowed = true then
        flagsOutcome store dst
          { dst with overflowed := true, blended := dst.blended || src.blended }
      else if srcCount = 0 then
        flagsOutcome store dst { dst with blended := dst.blended || src.blended }
      else
        match (dropCohortRefCount store dst).bind (fun _ => readRefs store dst) with
        | none =>
          (.error "parser-core phase zero: invalid destination drop-cohort reference spill",
            store, dst)
        | some dstRefs =>
          match readRefs store src with
          | none =>
            (.error "parser-core phase zero: invalid source drop-cohort reference spill",
              store, dst)
          | some srcRefs =>
            publishMerged limits store dst (dst.blended || src.blended) dstRefs
              (mergeRefs (dstRefs ++ srcRefs))

/- The reference with no fields set is ignored. -/
def addDropCohortRef (ref : DropCohortRef) : RefOutcome :=
  if ref = {} then
    (.ok false, store, set)
  else
    dropCohortRefUnion limits store set { inlineItems := [ref], count := 1 }

-- Merging

lemma mergeRefs_concat (refs : List DropCohortRef) (ref : DropCohortRef) :
    mergeRefs (refs ++ [ref]) =
      ((dropCohortRefAppendUnique (mergeRefs refs).1 ref).1, (mergeRefs refs).2 ||
        (dropCohortRefAppendUnique (mergeRefs refs).1 ref).2) := by
  unfold mergeRefs
  rw [foldl_append, foldl_cons, foldl_nil]

lemma dropCohortRefAppendUnique_insert {dst : List DropCohortRef} {ref : DropCohortRef}
    (hNew : ref ∉ dst) (hRoom : dst.length < 32) :
    dropCohortRefAppendUnique dst ref = (dst.orderedInsert (· < ·) ref, false) := by
  have hSame : dropCohortRefLess = (· < ·) :=
    funext (fun a => funext fun b => propext (dropCohortRefLess_iff a b))
  unfold dropCohortRefAppendUnique
  rw [if_neg hNew, if_neg (Nat.not_le.mpr hRoom)]
  congr

/- What is merged is sorted, and all there is unless it is too much. -/
lemma mergeRefs_spec (refs : List DropCohortRef) :
    (mergeRefs refs).1.Pairwise (· < ·) ∧ (mergeRefs refs).1.length ≤ 32 ∧
      ((mergeRefs refs).2 = false → (mergeRefs refs).1.toFinset = refs.toFinset) ∧
      ((mergeRefs refs).2 → 32 < refs.toFinset.card) := by
  induction refs using List.reverseRecOn with
  | nil => exact ⟨Pairwise.nil, Nat.zero_le _, fun _ => rfl, Bool.noConfusion⟩
  | append_singleton refs ref ih =>
    rcases ih with ⟨hSorted, hCap, hExact, hFull⟩
    have hMore : refs.toFinset.card ≤ (refs ++ [ref]).toFinset.card := by
      refine Finset.card_le_card fun r hr => ?_
      rw [mem_toFinset] at hr ⊢
      exact mem_append_left _ hr
    have hAdd : (refs ++ [ref]).toFinset = insert ref refs.toFinset := by
      ext r
      simp
    rw [mergeRefs_concat]
    generalize mergeRefs refs = merged at *
    by_cases hOld : ref ∈ merged.1
    · unfold dropCohortRefAppendUnique
      rw [if_pos hOld, Bool.or_false]
      refine ⟨hSorted, hCap, fun hOpen => ?_, fun hOver => (hFull hOver).trans_le hMore⟩
      rw [hAdd, ← hExact hOpen, Finset.insert_eq_of_mem (mem_toFinset.mpr hOld)]
    by_cases hRoom : merged.1.length < 32
    · rw [dropCohortRefAppendUnique_insert hOld hRoom, Bool.or_false]
      refine ⟨pairwise_orderedInsert hSorted hOld, ?_, fun hOpen => ?_,
        fun hOver => (hFull hOver).trans_le hMore⟩
      · rw [orderedInsert_length]
        exact hRoom
      rw [hAdd, ← hExact hOpen]
      ext r
      simp [mem_orderedInsert]
    unfold dropCohortRefAppendUnique
    rw [if_neg hOld, if_pos (Nat.not_lt.mp hRoom), Bool.or_true]
    refine ⟨hSorted, hCap, Bool.noConfusion, fun _ => ?_⟩
    cases hOver : merged.2 with
    | true => exact (hFull hOver).trans_le hMore
    | false =>
      rw [hAdd, ← hExact hOver, Finset.card_insert_of_notMem (by rwa [mem_toFinset]),
        toFinset_card_of_nodup (hSorted.imp fun h => ne_of_lt h)]
      omega

-- Sets in the Store

/- A set lists what was put into it, or there was too much. -/
structure Lists (store : List DropCohortRef) (set : DropCohortRefSet) (refs : List DropCohortRef)
    (puts : Finset DropCohortRef) : Prop where
  holds : Holds store set.toSpillSet refs
  few : set.spilled = false → refs.length ≤ 2
  sorted : refs.Pairwise (· < ·)
  cap : refs.length ≤ 32
  all : set.overflowed = false → refs.toFinset = puts
  full : set.overflowed = true → 32 < puts.card

variable {limits : DropCohortLimits} {store refs dstRefs srcRefs : List DropCohortRef}
  {set dst src : DropCohortRefSet} {puts more : Finset DropCohortRef}

section

variable (hLists : Lists store set refs puts)

include hLists

lemma Lists.read :
    dropCohortRefCount store set = some refs.length ∧ readRefs store set = some refs := by
  have hCount := hLists.holds.count_eq
  unfold dropCohortRefCount readRefs
  rw [hCount]
  cases hPlace : set.spilled with
  | false =>
    have hFew := hLists.few hPlace
    refine ⟨by rw [if_pos rfl, if_pos hFew], mapM_range fun i hi => ?_⟩
    unfold dropCohortRefAt
    rw [if_neg (by omega), if_pos hPlace, if_neg (by omega)]
    cases hLists.holds with
    | inline _ _ hItems =>
      rcases hItems with ⟨rest, hItems⟩
      rw [← hItems, getElem?_append_left hi]
    | spilled _ _ hSpilled _ _ _ => simp [hPlace] at hSpilled
  | true =>
    rcases hLists.holds.within hPlace with ⟨hRef, hEnd, hAt⟩
    rw [hCount] at hEnd
    refine ⟨by rw [if_neg Bool.noConfusion, if_neg (by omega), if_pos hEnd],
      mapM_range fun i hi => ?_⟩
    unfold dropCohortRefAt
    rw [if_neg (by omega), hPlace, if_neg Bool.noConfusion, if_neg (by omega)]
    exact hAt i hi

lemma Lists.append (added : List DropCohortRef) : Lists (store ++ added) set refs puts :=
  ⟨hLists.holds.append added, hLists.few, hLists.sorted, hLists.cap, hLists.all, hLists.full⟩

lemma Lists.overflow (hFull : 32 < more.card) (blended : Bool) :
    Lists store { set with overflowed := true, blended := blended } refs more :=
  ⟨hLists.holds.mark true, hLists.few, hLists.sorted, hLists.cap, Bool.noConfusion, fun _ => hFull⟩

lemma Lists.blend (blended : Bool) : Lists store { set with blended := blended } refs puts :=
  ⟨hLists.holds, hLists.few, hLists.sorted, hLists.cap, hLists.all, hLists.full⟩

end

/- An operation is rejected, or the set lists what it should. -/
inductive Performs (store : List DropCohortRef) (dst : DropCohortRefSet)
    (puts : Finset DropCohortRef) : RefOutcome → Prop
  | rejected (err : String) : Performs store dst puts (.error err, store, dst)
  | done (changed : Bool) (added : List DropCohortRef) {grown refs : List DropCohortRef}
      {set : DropCohortRefSet} (hGrown : grown = store ++ added)
      (hLists : Lists grown set refs puts) : Performs store dst puts (.ok changed, grown, set)

lemma Lists.performs (hLists : Lists store set refs puts) (changed : Bool) :
    Performs store dst puts (.ok changed, store, set) :=
  .done changed [] (append_nil store).symm hLists

lemma spillOutcome_performs (refs : List DropCohortRef) {added : List DropCohortRef}
    (hAdded : 0 < added.length ∧ added.length ≤ 32)
    (hLists : store.length + added.length < 2 ^ 32 → Lists (store ++ added) set refs puts) :
    Performs store dst puts (spillOutcome limits store dst added set) := by
  unfold spillOutcome
  cases hFlight : dropCohortRefPreflight limits store added.length with
  | error err => exact .rejected err
  | ok _ =>
    refine .done true added rfl (hLists ?_)
    unfold dropCohortRefPreflight at hFlight
    rw [if_neg (by omega)] at hFlight
    split at hFlight
    · cases hFlight
    split at hFlight
    · cases hFlight
    split at hFlight
    · cases hFlight
    · omega

lemma publishMerged_performs (hDst : Lists store dst dstRefs puts)
    (hOpen : dst.overflowed = false) (hSrc : srcRefs.toFinset = more) (blended : Bool) :
    Performs store dst (puts ∪ more)
      (publishMerged limits store dst blended dstRefs (mergeRefs (dstRefs ++ srcRefs))) := by
  have hAll : (dstRefs ++ srcRefs).toFinset = puts ∪ more := by
    rw [toFinset_append, hDst.all hOpen, hSrc]
  rcases mergeRefs_spec (dstRefs ++ srcRefs) with ⟨hSorted, hCap, hExact, hFull⟩
  rw [hAll] at hExact hFull
  generalize mergeRefs (dstRefs ++ srcRefs) = merged at *
  unfold publishMerged flagsOutcome
  dsimp only
  split
  · rename_i hOver
    exact (hDst.overflow (hFull hOver) blended).performs _
  rename_i hNot
  rw [Bool.not_eq_true] at hNot
  have hSame : dst.count = merged.1.length → merged.1.take dst.count = dstRefs →
      Lists store { dst with blended := blended } dstRefs (puts ∪ more) := by
    intro hLength hTake
    rw [hLength, take_length] at hTake
    refine ⟨hDst.holds, hDst.few, hDst.sorted, hDst.cap, fun _ => ?_, fun hOver => ?_⟩
    · rw [← hTake, hExact hNot]
    · simp [hOpen] at hOver
  split_ifs with hEqual hFew hEqual hTail
  · exact (hSame hEqual.1.symm hEqual.2.2).performs _
  · have hInline : Holds store { inlineItems := merged.1, count := merged.1.length } merged.1 :=
      .inline rfl rfl (prefix_refl _)
    exact Lists.performs ⟨hInline, fun _ => hFew, hSorted, hCap, fun _ => hExact hNot,
      Bool.noConfusion⟩ true
  · exact (hSame hEqual.2.1 hEqual.2.2).performs _
  · rcases hTail with ⟨hPlace, _, hEnd, hTake, hLess⟩
    refine spillOutcome_performs merged.1 (by rw [length_drop]; omega) fun _ => ?_
    have hJoin : dstRefs ++ merged.1.drop dst.count = merged.1 := by rw [← hTake, take_append_drop]
    have hHolds : Holds (store ++ merged.1.drop dst.count)
        { dst.toSpillSet with count := merged.1.length, overflowed := false, spilled := true }
        (dstRefs ++ merged.1.drop dst.count) :=
      hDst.holds.extend hPlace hEnd rfl (by rw [hJoin]) rfl
    rw [hJoin] at hHolds
    exact ⟨hHolds, Bool.noConfusion, hSorted, hCap, fun _ => hExact hNot, Bool.noConfusion⟩
  · refine spillOutcome_performs merged.1 (by omega) (fun hBound => ?_)
    refine ⟨.spilled store [] rfl rfl (Nat.mod_eq_of_lt (by omega)) (append_nil _).symm,
      Bool.noConfusion, hSorted, hCap, fun _ => hExact hNot, Bool.noConfusion⟩

lemma dropCohortRefUnion_performs (hDst : Lists store dst dstRefs puts)
    (hSrc : Lists store src srcRefs more) :
    Performs store dst (puts ∪ more) (dropCohortRefUnion limits store dst src) := by
  unfold dropCohortRefUnion flagsOutcome
  split
  · rename_i hOver
    have hFull : 32 < (puts ∪ more).card :=
      (hDst.full hOver).trans_le (Finset.card_le_card Finset.subset_union_left)
    refine Lists.performs ⟨hDst.holds, hDst.few, hDst.sorted, hDst.cap, fun hOpen => ?_,
      fun _ => hFull⟩ false
    simp [hOver] at hOpen
  rename_i hOpen
  rw [Bool.not_eq_true] at hOpen
  rw [hSrc.read.1]
  dsimp only
  split
  · rename_i hOver
    have hFull : 32 < (puts ∪ more).card :=
      (hSrc.full hOver).trans_le (Finset.card_le_card Finset.subset_union_right)
    exact (hDst.overflow hFull _).performs _
  rename_i hExact
  rw [Bool.not_eq_true] at hExact
  split_ifs with hNone
  · have hEmpty : more = ∅ := by
      rw [← hSrc.all hExact, eq_nil_of_length_eq_zero hNone, toFinset_nil]
    rw [hEmpty, Finset.union_empty]
    exact (hDst.blend _).performs _
  · rw [hDst.read.1, Option.bind_some, hDst.read.2, hSrc.read.2]
    exact publishMerged_performs hDst hOpen (hSrc.all hExact) _

-- Runs

/-
  A family of sets that share a store. What was put into each set is kept beside them, and is read
  by no operation.
-/
structure CohortWorld where
  store : List DropCohortRef
  sets : Nat → DropCohortRefSet
  puts : Nat → Finset DropCohortRef

inductive CohortOp where
  | add (i : Nat) (ref : DropCohortRef)
  | union (i j : Nat)
  | copy (i j : Nat)

/- The set that is changed. -/
def CohortOp.target : CohortOp → Nat
  | add i _ => i
  | union i _ => i
  | copy i _ => i

def CohortOp.outcome (limits : DropCohortLimits) (w : CohortWorld) : CohortOp → RefOutcome
  | add i ref => addDropCohortRef limits w.store (w.sets i) ref
  | union i j => dropCohortRefUnion limits w.store (w.sets i) (w.sets j)
  | copy _ j => (.ok true, w.store, w.sets j)

/- What is in the set after an operation that is not rejected. -/
def CohortOp.given (puts : Nat → Finset DropCohortRef) : CohortOp → Finset DropCohortRef
  | add i ref => if ref = {} then puts i else puts i ∪ {ref}
  | union i j => puts i ∪ puts j
  | copy _ j => puts j

def CohortOp.rejected (limits : DropCohortLimits) (w : CohortWorld) (op : CohortOp) : Bool :=
  ! (op.outcome limits w).1.isOk

def CohortWorld.step (limits : DropCohortLimits) (w : CohortWorld) (op : CohortOp) : CohortWorld :=
  let out := op.outcome limits w
  { store := out.2.1
    sets := Function.update w.sets op.target out.2.2
    puts :=
      match out.1 with
      | .ok _ => Function.update w.puts op.target (op.given w.puts)
      | .error _ => w.puts }

def CohortWorld.Right (w : CohortWorld) : Prop :=
  ∀ i : Nat, ∃ refs : List DropCohortRef, Lists w.store (w.sets i) refs (w.puts i)

variable {w : CohortWorld}

lemma CohortOp.outcome_performs (hRight : w.Right) (op : CohortOp) :
    Performs w.store (w.sets op.target) (op.given w.puts) (op.outcome limits w) := by
  cases op with
  | add i ref =>
    rcases hRight i with ⟨refs, hLists⟩
    change Performs w.store (w.sets i) (if ref = {} then w.puts i else w.puts i ∪ {ref})
      (addDropCohortRef limits w.store (w.sets i) ref)
    unfold addDropCohortRef
    split
    · exact hLists.performs false
    have hSingle : Lists w.store { inlineItems := [ref], count := 1 } [ref] {ref} :=
      ⟨.inline rfl rfl (prefix_refl _), fun _ => Nat.le_succ 1, pairwise_singleton _ ref,
        Nat.le_add_left 1 31, fun _ => rfl, Bool.noConfusion⟩
    exact dropCohortRefUnion_performs hLists hSingle
  | union i j =>
    rcases hRight i with ⟨dstRefs, hDst⟩
    rcases hRight j with ⟨srcRefs, hSrc⟩
    exact dropCohortRefUnion_performs hDst hSrc
  | copy i j =>
    rcases hRight j with ⟨refs, hLists⟩
    exact hLists.performs true

/- A step changes one set, or nothing if it is rejected. -/
lemma CohortWorld.step_spec (hRight : w.Right) (op : CohortOp) :
    (w.step limits op).Right ∧ (op.rejected limits w → w.step limits op = w) ∧
      ∀ i ≠ op.target,
        readRefs (w.step limits op).store ((w.step limits op).sets i) =
          readRefs w.store (w.sets i) := by
  have hPerforms : Performs w.store _ _ (op.outcome limits w) := op.outcome_performs hRight
  unfold step CohortOp.rejected
  generalize op.outcome limits w = out at *
  cases hPerforms with
  | rejected err =>
    dsimp only [Except.isOk, Except.toBool]
    rw [Function.update_eq_self]
    exact ⟨hRight, fun _ => rfl, fun _ _ => rfl⟩
  | done changed added hGrown hLists =>
    rw [hGrown] at hLists ⊢
    dsimp only [Except.isOk, Except.toBool]
    refine ⟨fun i => ?_, Bool.noConfusion, fun i hi => ?_⟩
    · by_cases hSame : i = op.target
      · rw [hSame]
        dsimp only
        rw [Function.update_self, Function.update_self]
        exact ⟨_, hLists⟩
      rcases hRight i with ⟨refs, hOther⟩
      dsimp only
      rw [Function.update_of_ne hSame, Function.update_of_ne hSame]
      exact ⟨refs, hOther.append added⟩
    · rcases hRight i with ⟨refs, hOther⟩
      rw [Function.update_of_ne hi, (hOther.append added).read.2, hOther.read.2]

/-
  Whatever is done with the sets, each lists what was put into it, sorted, unless that is more than
  the cap. What is rejected changes nothing, and no operation changes what is read from another set.
-/
theorem dropCohortRefs_run (limits : DropCohortLimits) (store : List DropCohortRef)
    (ops : List CohortOp) (op : CohortOp) :
    let w := ops.foldl (CohortWorld.step limits) ⟨store, fun _ => {}, fun _ => ∅⟩
    (∀ i : Nat, ∃ refs : List DropCohortRef, readRefs w.store (w.sets i) = some refs ∧ refs.Pairwise
      dropCohortRefLess ∧ refs.length ≤ 32 ∧ ((w.sets i).overflowed = false → refs.toFinset = w.puts
      i) ∧ ((w.sets i).overflowed = true ↔ 32 < (w.puts i).card)) ∧
    (op.rejected limits w = true → w.step limits op = w) ∧
    ∀ i ≠ op.target, readRefs (w.step limits op).store ((w.step limits op).sets i) =
      readRefs w.store (w.sets i) := by
  intro w
  have hRight : w.Right := by
    refine foldlRecOn ops (motive := CohortWorld.Right) _ (fun i => ⟨[], ?_⟩) ?_
    · exact ⟨.inline rfl rfl (prefix_refl _), fun _ => Nat.zero_le 2, Pairwise.nil, Nat.zero_le 32,
        fun _ => rfl, Bool.noConfusion⟩
    · exact fun w' hw op' _ => (CohortWorld.step_spec hw op').1
  refine ⟨fun i => ?_, (CohortWorld.step_spec hRight op).2⟩
  rcases hRight i with ⟨refs, hLists⟩
  refine ⟨refs, hLists.read.2, ?_, hLists.cap, hLists.all, hLists.full, fun hMany => ?_⟩
  · exact hLists.sorted.imp fun h => (dropCohortRefLess_iff _ _).mpr h
  by_contra hOpen
  rw [Bool.not_eq_true] at hOpen
  rw [← hLists.all hOpen] at hMany
  have := refs.toFinset_card_le
  have := hLists.cap
  omega

end GoTreeSitter.ParserCore
