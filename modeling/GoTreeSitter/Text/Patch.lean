import GoTreeSitter.Text.Position

/-
  Sets of range replacements on one text.

  Main declarations:
    * `Text.Patch`
    * `Text.Patch.Clash`
    * `Text.Patch.not_clash_of_before`
    * `Text.Patch.eq_of_perm`

  Two in-range patches that do not clash are ordered, so a
  set of them has exactly one list in text order.
-/

-- Patches and Their Clashes

namespace Text

/- Replace the letters from `start` up to `stop`. -/
structure Patch (α : Type) where
  start : Nat
  stop : Nat
  text : List α

namespace Patch

variable {α : Type} {p q : Patch α} {length : Nat}

/- The range is not reversed and lies inside the text. -/
def InRange (length : Nat) (p : Patch α) : Prop := p.start ≤ p.stop ∧ p.stop ≤ length

/- The two ranges share an inner position. -/
def Overlaps (p q : Patch α) : Prop := p.start < q.stop ∧ q.start < p.stop

/- The range is empty. -/
def IsInsertion (p : Patch α) : Prop := p.start = p.stop

/- Two patches clash when their ranges overlap or when they are insertions at one position. -/
def Clash (p q : Patch α) : Prop := Overlaps p q ∨
    (IsInsertion p ∧ IsInsertion q ∧ p.start = q.start)

instance (length : Nat) (p : Patch α) : Decidable (InRange length p) := by
  unfold InRange
  infer_instance

instance (p q : Patch α) : Decidable (Overlaps p q) := by
  unfold Overlaps
  infer_instance

instance (p : Patch α) : Decidable (IsInsertion p) := by
  unfold IsInsertion
  infer_instance

instance (p q : Patch α) : Decidable (Clash p q) := by
  unfold Clash
  infer_instance

/- The first patch lies before the second in the text. -/
def Before (p q : Patch α) : Prop := p.stop ≤ q.start ∧
    ¬ (IsInsertion p ∧ IsInsertion q ∧ p.start = q.start)

instance (p q : Patch α) : Decidable (Before p q) := by
  unfold Before
  infer_instance

lemma Clash.symm (h : Clash p q) : Clash q p := by
  rcases h with hOverlap | ⟨hp, hq, hEq⟩
  · exact .inl ⟨hOverlap.2, hOverlap.1⟩
  · exact .inr ⟨hq, hp, hEq.symm⟩

lemma not_clash_of_before (h : Before p q) : ¬ Clash p q := by
  rintro (hOverlap | hInsertions)
  · have hLt := hOverlap.2
    have hLe := h.1
    omega
  · exact h.2 hInsertions

/- Patches listed by start and then by stop that do not clash are ordered. -/
lemma before_of_not_clash (hp : InRange length p) (hq : InRange length q)
    (hKey : p.start < q.start ∨ p.start = q.start ∧ p.stop ≤ q.stop) (hClash : ¬ Clash p q) :
    Before p q := by
  have hpOrder := hp.1
  have hqOrder := hq.1
  refine ⟨?_, fun h => hClash (.inr h)⟩
  by_contra hLt
  rcases hKey with hStart | ⟨hStart, hStop⟩
  · exact hClash (.inl ⟨by omega, by omega⟩)
  · exact hClash (.inl ⟨by omega, by omega⟩)

lemma Before.trans {r : Patch α} (hp : InRange length p) (hq : InRange length q)
    (hr : InRange length r) (hpq : Before p q) (hqr : Before q r) :
    Before p r := by
  rcases hpq with ⟨hpqLe, hpqNe⟩
  rcases hqr with ⟨hqrLe, -⟩
  have hpOrder := hp.1
  have hqOrder := hq.1
  have hrOrder := hr.1
  refine ⟨by omega, ?_⟩
  rintro ⟨hpIns, hrIns, hEq⟩
  -- Squeezed between two insertions at one position, the
  -- middle patch would be an insertion there as well.
  exact hpqNe ⟨hpIns, by unfold IsInsertion; omega, by omega⟩

lemma pairwise_before_of_chain {ps : List (Patch α)} (hRange : ∀ p ∈ ps, InRange length p)
    (hChain : List.IsChain Before ps) :
    ps.Pairwise Before := by
  induction ps with
  | nil => exact List.Pairwise.nil
  | cons p ps ih =>
    have hTail : ps.Pairwise Before := ih (fun q hq => hRange q (List.mem_cons_of_mem _ hq))
        hChain.of_cons
    refine List.pairwise_cons.mpr ⟨?_, hTail⟩
    cases ps with
    | nil => simp
    | cons q qs =>
      have hpq : Before p q := (List.isChain_cons_cons.mp hChain).1
      intro r hr
      rcases List.mem_cons.mp hr with rfl | hr
      · exact hpq
      have hqr : Before q r := (List.pairwise_cons.mp hTail).1 r hr
      exact Before.trans (hRange p (by simp)) (hRange q (by simp)) (hRange r (by simp [hr])) hpq hqr

/- The text order of in-range patches is unique. -/
lemma eq_of_perm {ps qs : List (Patch α)} (hRange : ∀ p ∈ ps, InRange length p)
    (hPerm : ps.Perm qs) (hps : ps.Pairwise Before) (hqs : qs.Pairwise Before) :
    ps = qs := by
  refine List.Perm.eq_of_pairwise ?_ hps hqs hPerm
  intro p q hp hq hpq hqp
  have hpRange := hRange p hp
  have hqRange := hRange q (hPerm.mem_iff.mpr hq)
  have hpOrder := hpRange.1
  have hqOrder := hqRange.1
  have hpqLe := hpq.1
  have hqpLe := hqp.1
  exact absurd ⟨by unfold IsInsertion; omega, by unfold IsInsertion; omega, by omega⟩ hpq.2

end Patch

-- Patched Texts

variable {α : Type}

/- The text from `pos` on, with each listed range replaced and every other letter kept in order. -/
def patchFrom (text : List α) (pos : Nat) : List (Patch α) → List α
| [] => text.drop pos
| p :: ps => slice text pos p.start ++ p.text ++ patchFrom text p.stop ps

/- The text with every listed range replaced. -/
def patch (text : List α) (ps : List (Patch α)) : List α := patchFrom text 0 ps

@[simp]
lemma patch_nil (text : List α) : patch text [] = text := by simp [patch, patchFrom]

lemma length_patchFrom_le {text : List α} {ps : List (Patch α)} {pos : Nat}
    (hRange : ∀ p ∈ ps, p.InRange text.length) (hPos : ∀ p ∈ ps, pos ≤ p.start)
    (hOrder : ps.Pairwise Patch.Before) :
    (patchFrom text pos ps).length ≤ text.length - pos + (ps.map (·.text.length)).sum := by
  induction ps generalizing pos with
  | nil => simp [patchFrom]
  | cons p ps ih =>
    rw [List.forall_mem_cons] at hRange hPos
    rw [List.pairwise_cons] at hOrder
    have hRest := ih hRange.2 (fun q hq => (hOrder.1 q hq).1) hOrder.2
    have hIn := hRange.1
    unfold Patch.InRange at hIn
    have hGap : (slice text pos p.start).length = _ := length_slice text (hIn.1.trans hIn.2)
    simp only [patchFrom, List.length_append, List.map_cons, List.sum_cons, hGap]
    omega

end Text
