import Mathlib.Data.List.Basic
import Mathlib.Data.List.Flatten

/-
  Walks with a stack of pending items, and machines that work in turns.

  Main declarations:
    * `Traversal.System`
    * `Traversal.System.order`
    * `Turns.next`
    * `Traversal.System.mem_order_iff`
    * `Traversal.System.outputs_from_iff`
    * `Turns.Yields.put`

  An item that is visited puts the items it leads to on the stack. Items are ranked, so that every
  walk ends. A walk that leaves items out is compared with the full one by what the items left out
  would have put out. A machine puts something out at times: `Yields` says what a caller gets who
  asks for the next thing until there is none, given enough turns for each call and enough calls.
-/

-- Orders

namespace Traversal

open List

/- Items with the items each one leads to, first one first. -/
structure System (ι : Type) where
  next : ι → List ι
  rank : ι → Nat
  rank_lt : ∀ {i j : ι}, j ∈ next i → rank j < rank i

namespace System

variable {ι β : Type} (s : System ι)

/- The items visited from an item, to a depth. -/
def visit : Nat → ι → List ι
  | 0, _ => []
  | depth + 1, i => i :: (s.next i).flatMap (visit depth)

/- The items visited from an item, each before its own. -/
def order (i : ι) : List ι := s.visit (s.rank i + 1) i

/- Every depth above the rank gives the same items. -/
lemma visit_congr {depth other : Nat} {i : ι} (hDepth : s.rank i < depth)
    (hOther : s.rank i < other) :
    s.visit depth i = s.visit other i := by
  induction depth generalizing other i with
  | zero => exact absurd hDepth (Nat.not_lt_zero _)
  | succ depth ih =>
    cases other with
    | zero => exact absurd hOther (Nat.not_lt_zero _)
    | succ other =>
      rw [visit, visit]
      congr 1
      refine flatMap_congr ?_
      intro j hj
      have hRank := s.rank_lt hj
      exact ih (by omega) (by omega)

/- An item comes before all it leads to. -/
lemma order_eq (i : ι) : s.order i = i :: (s.next i).flatMap s.order := by
  rw [order, visit]
  congr 1
  refine flatMap_congr ?_
  intro j hj
  exact s.visit_congr (s.rank_lt hj) (Nat.lt_succ_self _)

lemma induct {motive : ι → Prop} (hStep : ∀ i, (∀ j ∈ s.next i, motive j) → motive i) (i : ι) :
    motive i := by
  induction hRank : s.rank i using Nat.strongRecOn generalizing i with
  | ind rank ih =>
    refine hStep i ?_
    intro j hj
    exact ih (s.rank j) (hRank ▸ s.rank_lt hj) j rfl

end System

end Traversal

-- Stacks

namespace Traversal.System

open List

variable {ι : Type} (s : System ι)

/- Take items off the stack, so many times. -/
def run : Nat → List ι → List ι
  | 0, _ => []
  | _ + 1, [] => []
  | steps + 1, i :: rest => i :: run steps (s.next i ++ rest)

lemma run_eq_order {steps : Nat} {stack : List ι}
    (hSteps : (stack.flatMap s.order).length ≤ steps) :
    s.run steps stack = stack.flatMap s.order := by
  induction steps generalizing stack with
  | zero =>
    rw [Nat.le_zero, length_eq_zero_iff] at hSteps
    rw [hSteps]
    rfl
  | succ steps ih =>
    cases stack with
    | nil => rfl
    | cons i rest =>
      have hOrder : (i :: rest).flatMap s.order = i :: (s.next i ++ rest).flatMap s.order := by
        rw [flatMap_cons, order_eq, flatMap_append]
        rfl
      rw [hOrder] at hSteps ⊢
      rw [run, ih (Nat.le_of_succ_le_succ hSteps)]

-- Items Below an Item

/- An item leads to another one, maybe through others. -/
inductive Below : ι → ι → Prop where
  | child {i j : ι} (hNext : j ∈ s.next i) : Below i j
  | step {i j k : ι} (hNext : j ∈ s.next i) (hBelow : Below j k) : Below i k

/- An item or one below it. -/
def From (i j : ι) : Prop := j = i ∨ s.Below i j

lemma below_iff {i k : ι} : s.Below i k ↔ ∃ j ∈ s.next i, s.From j k := by
  constructor
  · intro hBelow
    cases hBelow with
    | child hNext => exact ⟨k, hNext, .inl rfl⟩
    | step hNext hBelow => exact ⟨_, hNext, .inr hBelow⟩
  · rintro ⟨j, hNext, rfl | hBelow⟩
    · exact .child hNext
    · exact .step hNext hBelow

lemma below_of_from {i j k : ι} (hFrom : s.From i j) (hBelow : s.Below j k) : s.Below i k := by
  rcases hFrom with rfl | hFirst
  · exact hBelow
  induction hFirst with
  | child hNext => exact .step hNext hBelow
  | step hNext _ ih => exact .step hNext (ih hBelow)

/- The items visited are the item and those below it. -/
lemma mem_order_iff {i k : ι} : k ∈ s.order i ↔ s.From i k := by
  induction i using s.induct with
  | hStep i ih =>
    rw [order_eq, mem_cons, From, below_iff]
    refine or_congr Iff.rfl ?_
    rw [mem_flatMap]
    refine exists_congr ?_
    intro j
    refine and_congr_right ?_
    intro hNext
    exact ih j hNext

end Traversal.System

-- Leaving Items Out

namespace Traversal

open List

/- A walk over the first lists, part by part, of two. -/
lemma flatMap_eq_iff_of_sublist {ι β : Type} {f g : ι → List β} {items : List ι}
    (hSublist : ∀ i ∈ items, (f i).Sublist (g i)) :
    items.flatMap f = items.flatMap g ↔ ∀ i ∈ items, f i = g i := by
  induction items with
  | nil => simp
  | cons i rest ih =>
    have hHere := hSublist i mem_cons_self
    have hRest : ∀ j ∈ rest, (f j).Sublist (g j) := by
      intro j hj
      exact hSublist j (mem_cons_of_mem i hj)
    have hLength : (rest.flatMap f).length ≤ (rest.flatMap g).length := by
      refine (List.Sublist.length_le ?_)
      exact List.Sublist.flatMap_right _ hRest
    rw [flatMap_cons, flatMap_cons]
    rw [forall_mem_cons, ← ih hRest]
    constructor
    · intro hEq
      have hSame : (f i).length = (g i).length := by
        have hTotal := congrArg List.length hEq
        rw [length_append, length_append] at hTotal
        have hLe := hHere.length_le
        omega
      have hFirst := hHere.eq_of_length hSame
      refine ⟨hFirst, ?_⟩
      rw [hFirst] at hEq
      exact append_cancel_left hEq
    · rintro ⟨hFirst, hRestEq⟩
      rw [hFirst, hRestEq]

lemma flatMap_filter {ι β : Type} (keep : ι → Bool) (f : ι → List β) (items : List ι) :
    (items.filter keep).flatMap f = items.flatMap fun i => if keep i = true then f i else [] := by
  induction items with
  | nil => rfl
  | cons i rest ih =>
    rw [filter_cons, flatMap_cons, ← ih]
    split
    · rfl
    · rfl

namespace System

variable {ι β : Type} (s : System ι) {keep : ι → Bool}

/- The walk that does not go to some of the items. -/
def prune (keep : ι → Bool) : System ι where
  next := fun i => (s.next i).filter keep
  rank := s.rank
  rank_lt := by
    intro i j hj
    exact s.rank_lt (mem_filter.mp hj).1

/- Items that are kept, with what they put out. -/
def keptOutputs (keep : ι → Bool) (out : ι → List β) (i : ι) : List β :=
  ((s.order i).filter keep).flatMap out

lemma keptOutputs_eq (keep : ι → Bool) (out : ι → List β) (i : ι) :
    s.keptOutputs keep out i =
      (if keep i = true then out i else []) ++ (s.next i).flatMap (s.keptOutputs keep out) := by
  have hBelow : (((s.next i).flatMap s.order).filter keep).flatMap out =
      (s.next i).flatMap (s.keptOutputs keep out) := by
    rw [filter_flatMap, flatMap_assoc]
    rfl
  rw [keptOutputs, order_eq, filter_cons]
  split
  · rw [flatMap_cons, hBelow]
  · rw [hBelow, nil_append]

/- What the walk without some items puts out. -/
lemma outputs_prune_eq (keep : ι → Bool) (out : ι → List β) (i : ι) :
    ((s.prune keep).order i).flatMap out =
      out i ++
        (s.next i).flatMap fun j =>
          if keep j = true then ((s.prune keep).order j).flatMap out else [] := by
  rw [order_eq, flatMap_cons, flatMap_assoc]
  congr 1
  exact flatMap_filter _ _ (s.next i)

lemma outputs_prune_sublist (out : ι → List β) {i : ι} (hKeep : keep i) :
    (((s.prune keep).order i).flatMap out).Sublist (s.keptOutputs keep out i) := by
  induction i using s.induct with
  | hStep i ih =>
    rw [outputs_prune_eq, keptOutputs_eq, if_pos hKeep]
    refine (List.Sublist.refl _).append ?_
    refine List.Sublist.flatMap_right _ ?_
    intro j hNext
    split_ifs with hj
    · exact ih j hNext hj
    · exact nil_sublist _

lemma keptOutputs_eq_nil_iff (keep : ι → Bool) (out : ι → List β) (i : ι) :
    s.keptOutputs keep out i = [] ↔ ∀ j, s.From i j → keep j → out j = [] := by
  rw [keptOutputs, flatMap_eq_nil_iff]
  refine forall_congr' ?_
  intro j
  rw [mem_filter, mem_order_iff, and_imp]

/-
  Leaving items out, with all below them, loses nothing of the items to keep exactly if no item to
  keep that lies below one left out puts anything out.
-/
lemma outputs_prune_iff {out : ι → List β} {i : ι} (hKeep : keep i) :
    ((s.prune keep).order i).flatMap out = s.keptOutputs keep out i ↔
      ∀ k j, s.From i k → keep k = false → s.Below k j → keep j → out j = [] := by
  induction i using s.induct with
  | hStep i ih =>
    rw [outputs_prune_eq, keptOutputs_eq, if_pos hKeep, append_right_inj,
      flatMap_eq_iff_of_sublist ?_]
    · constructor
      · rintro hEach k j (rfl | hBelow) hOut hj hIn
        · simp [hKeep] at hOut
        rcases s.below_iff.mp hBelow with ⟨first, hNext, hFrom⟩
        have hFirst := hEach first hNext
        split_ifs at hFirst with hKept
        · exact (ih first hNext hKept).mp hFirst k j hFrom hOut hj hIn
        exact (s.keptOutputs_eq_nil_iff keep out first).mp hFirst.symm j
          (.inr (s.below_of_from hFrom hj)) hIn
      · intro hNone first hNext
        split_ifs with hKept
        · rw [ih first hNext hKept]
          intro k j hFrom
          exact hNone k j (.inr (s.below_iff.mpr ⟨first, hNext, hFrom⟩))
        refine ((s.keptOutputs_eq_nil_iff keep out first).mpr ?_).symm
        rintro j (rfl | hj) hIn
        · exact absurd hIn hKept
        · exact hNone first j (.inr (.child hNext)) (by simpa using hKept) hj hIn
    · intro j hNext
      split_ifs with hj
      · exact s.outputs_prune_sublist out hj
      · exact nil_sublist _

/- The same where the first item may be left out as well. -/
lemma outputs_from_iff (keep : ι → Bool) (out : ι → List β) (i : ι) :
    (if keep i = true then ((s.prune keep).order i).flatMap out else []) =
      s.keptOutputs keep out i ↔
      ∀ k j, s.From i k → keep k = false → s.Below k j → keep j → out j = [] := by
  split_ifs with hKeep
  · exact s.outputs_prune_iff hKeep
  rw [eq_comm, keptOutputs_eq_nil_iff]
  constructor
  · intro hNone k j hFrom _ hBelow hIn
    exact hNone j (.inr (s.below_of_from hFrom hBelow)) hIn
  rintro hNone j (rfl | hBelow) hIn
  · exact absurd hIn hKeep
  · exact hNone i j (.inl rfl) (by simpa using hKeep) hBelow hIn

/- Leaving nothing out changes nothing. -/
lemma order_prune_of_all (hKeep : ∀ i, keep i) (i : ι) : (s.prune keep).order i = s.order i := by
  induction i using s.induct with
  | hStep i ih =>
    have hNext : (s.prune keep).next i = s.next i := filter_eq_self.mpr fun j _ => hKeep j
    rw [order_eq, order_eq, hNext]
    congr 1
    exact flatMap_congr ih

end System

end Traversal

-- Machines

namespace Turns

variable {σ β γ : Type}

/- What one turn of a machine does. -/
inductive Outcome (σ β : Type) where
  | done
  | quiet (s : σ)
  | put (b : β) (s : σ)

/- The next thing put out, within so many turns. -/
def next (turn : σ → Outcome σ β) : Nat → σ → Option (β × σ)
  | 0, _ => none
  | turns + 1, s =>
    match turn s with
    | .done => none
    | .quiet t => next turn turns t
    | .put b t => some (b, t)

/- What so many calls see, each within so many turns. -/
def drain (turn : σ → Outcome σ β) (view : β → σ → γ) (turns : Nat) : Nat → σ → List γ
  | 0, _ => []
  | calls + 1, s =>
    match next turn turns s with
    | none => []
    | some (b, t) => view b t :: drain turn view turns calls t

/- What a caller sees who asks until nothing is left. -/
def Yields (turn : σ → Outcome σ β) (view : β → σ → γ) (s : σ) (seen : List γ) : Prop :=
  ∃ enough : Nat, ∀ turns calls : Nat, enough ≤ turns → enough ≤ calls →
      drain turn view turns calls s = seen

-- Draining

variable {turn : σ → Outcome σ β} {view : β → σ → γ}

/- More turns find the same thing. -/
lemma next_succ {turns : Nat} {s : σ} {found : β × σ} (hNext : next turn turns s = some found) :
    next turn (turns + 1) s = some found := by
  induction turns generalizing s with
  | zero => cases hNext
  | succ turns ih =>
    rw [next] at hNext ⊢
    cases hTurn : turn s with
    | done => simp [hTurn] at hNext
    | quiet t =>
      rw [hTurn] at hNext
      exact ih hNext
    | put b t =>
      rw [hTurn] at hNext
      exact hNext

namespace Yields

lemma done {s : σ} (hTurn : turn s = .done) : Yields turn view s [] := by
  refine ⟨0, ?_⟩
  intro turns calls _ _
  cases calls with
  | zero => rfl
  | succ calls =>
    have hNone : next turn turns s = none := by
      cases turns with
      | zero => rfl
      | succ turns => rw [next, hTurn]
    rw [drain, hNone]

/- A turn that puts nothing out changes nothing. -/
lemma quiet {s t : σ} {seen : List γ} (hTurn : turn s = .quiet t)
    (hYields : Yields turn view t seen) :
    Yields turn view s seen := by
  rcases hYields with ⟨enough, hEnough⟩
  refine ⟨enough + 1, ?_⟩
  intro turns calls hTurns hCalls
  obtain ⟨turns, rfl⟩ := Nat.exists_eq_add_of_le' hTurns
  obtain ⟨calls, rfl⟩ := Nat.exists_eq_add_of_le' hCalls
  have hNext : next turn (turns + (enough + 1)) s = next turn (turns + enough) t := by rw [←
      Nat.add_assoc, next, hTurn]
  have hFewer := hEnough (turns + enough) (calls + enough + 1) (Nat.le_add_left _ _) (by omega)
  have hMore := hEnough (turns + enough + 1) (calls + enough + 1) (by omega) (by omega)
  rw [← Nat.add_assoc calls, drain, hNext]
  rw [drain] at hFewer hMore
  cases hFound : next turn (turns + enough) t with
  | none =>
    rw [hFound] at hFewer
    exact hFewer
  | some found =>
    rw [next_succ hFound] at hMore
    exact hMore

/- A turn that puts something out comes first. -/
lemma put {s t : σ} {b : β} {seen : List γ} (hTurn : turn s = .put b t)
    (hYields : Yields turn view t seen) :
    Yields turn view s (view b t :: seen) := by
  rcases hYields with ⟨enough, hEnough⟩
  refine ⟨enough + 1, ?_⟩
  intro turns calls hTurns hCalls
  obtain ⟨turns, rfl⟩ := Nat.exists_eq_add_of_le' hTurns
  obtain ⟨calls, rfl⟩ := Nat.exists_eq_add_of_le' hCalls
  have hNext :
      next turn (turns + (enough + 1)) s = some (b, t) := by rw [← Nat.add_assoc, next, hTurn]
  have hRest := hEnough (turns + (enough + 1)) (calls + enough) (by omega) (by omega)
  rw [← Nat.add_assoc calls, drain, hNext]
  exact congrArg (List.cons (view b t)) hRest

end Yields

end Turns
