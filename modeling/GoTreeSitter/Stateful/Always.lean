import Mathlib.Data.List.Basic

/-
  Results of stateful computations in every state.

  Main declarations:
    * `Stateful.Always`
    * `Stateful.always_bind`
    * `Stateful.always_foldlM_all`

  A computation may read and change a state that its caller knows nothing about. `Always m P` says
  that the result of `m` has the property `P` from every state, and the rules below follow the shape
  of the computation.
-/

-- Rules

namespace Stateful

variable {σ α β ι : Type} {P : α → Prop} {m : StateM σ α}

/- The result has the property, whatever the state is. -/
def Always (m : StateM σ α) (P : α → Prop) : Prop := ∀ s : σ, P (m s).1

/- Nothing is said about a result. -/
lemma always_true (m : StateM σ α) : Always m (fun _ => True) := fun _ => trivial

lemma always_pure {a : α} (h : P a) : Always (pure a : StateM σ α) P := fun _ => h

variable {f : α → StateM σ β} {Q : β → Prop} {step : β → ι → StateM σ β} {Inv : List ι → β → Prop}
  {b : β}

/- A property of the first result carries over the rest. -/
lemma always_bind (hFirst : Always m P) (hRest : ∀ a, P a → Always (f a) Q) :
    Always (m >>= f) Q := fun s => hRest (m s).1 (hFirst s) (m s).2

/- The rest holds for every first result. -/
lemma always_bind_any (hRest : ∀ a, Always (f a) Q) : Always (m >>= f) Q :=
  always_bind (always_true m) (fun a _ => hRest a)

lemma Always.mono {Q : α → Prop} (hAlways : Always m P) (hImp : ∀ a, P a → Q a) : Always m Q :=
  fun s => hImp _ (hAlways s)

/-
  A loop over a list. The invariant speaks of the items that are done and of the value carried
  along.
-/
lemma always_foldlM (hStep : ∀ done b i, Inv done b → Always (step b i) (Inv (done ++ [i])))
    {done items : List ι} (hStart : Inv done b) :
    Always (items.foldlM step b) (Inv (done ++ items)) := by
  induction items generalizing done b with
  | nil =>
    rw [List.append_nil, List.foldlM_nil]
    exact always_pure hStart
  | cons i items ih =>
    rw [List.foldlM_cons]
    refine always_bind (hStep done b i hStart) ?_
    intro next hNext
    have hRest := ih hNext
    rw [List.append_assoc] at hRest
    exact hRest

/- The whole loop. -/
lemma always_foldlM_all (hStep : ∀ done b i, Inv done b → Always (step b i) (Inv (done ++ [i])))
    (hStart : Inv [] b) (items : List ι) :
    Always (items.foldlM step b) (Inv items) := always_foldlM hStep hStart
end Stateful
