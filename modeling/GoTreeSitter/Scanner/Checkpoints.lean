import Mathlib.Data.List.Basic

/-
  Scanner checkpoints of inner nodes.

  Main declarations:
    * `externalScannerCheckpointRefForStackEntry`
    * `rebuildExternalScannerCheckpointForNode`
    * `rebuild_exact_iff`

  A rebuild goes to the children of a node from both ends until one has a checkpoint. References
  are passed up and recorded as they are, and are read through the arena of the node. Nodes without
  an arena, which a rebuild passes over, and the test for languages that have no checkpoints are
  left out.
-/

-- Entries

namespace GoTreeSitter.Scanner

open List

structure SnapshotRef where
  off : Nat
  slab : Nat
  len : Nat

structure CheckpointRef where
  start : SnapshotRef
  stop : SnapshotRef

/-
  A leaf with the checkpoint that is found for it, or an inner entry with its record.  Compact
  leaves and pending parents have no arena of their own.
-/
inductive Entry where
  | leaf (arena : Option Nat) (checkpoint : Option CheckpointRef)
  | inner (arena : Option Nat) (recorded : Option CheckpointRef) (children : List Entry)

def spanned : Option CheckpointRef → Option CheckpointRef → Option CheckpointRef
  | some first, some last => some ⟨first.start, last.stop⟩
  | _, _ => none

mutual

/- The reference that is passed up. -/
def externalScannerCheckpointRefForStackEntry : Entry → Option CheckpointRef
  | .leaf _ checkpoint => checkpoint
  | .inner _ _ children => spanned (firstRef children) (lastRef children)

def firstRef : List Entry → Option CheckpointRef
  | [] => none
  | child :: rest => (externalScannerCheckpointRefForStackEntry child).or (firstRef rest)

def lastRef : List Entry → Option CheckpointRef
  | [] => none
  | child :: rest => (lastRef rest).or (externalScannerCheckpointRefForStackEntry child)

end

mutual

/- Nodes record the reference; pending parents have no record. -/
def rebuildExternalScannerCheckpointForNode : Entry → Entry
  | .leaf own checkpoint => .leaf own checkpoint
  | .inner own recorded children =>
    .inner own (if own.isSome then (spanned (firstRef children) (lastRef children)).or recorded
      else recorded) (rebuildChildren true children)

/- The children before the first and behind the last checkpoint, with these two. -/
def rebuildChildren (first : Bool) : List Entry → List Entry
  | [] => []
  | child :: rest =>
    (if first || (lastRef rest).isNone then rebuildExternalScannerCheckpointForNode child
      else child) ::
      rebuildChildren (first && (externalScannerCheckpointRefForStackEntry child).isNone) rest

end

-- Exactness

mutual

/- The checkpoints of the leaves, with the arenas they are read through. -/
def Entry.leaves (arena : Nat) : Entry → List (Nat × CheckpointRef)
  | .leaf own checkpoint => checkpoint.toList.map fun cp => (own.getD arena, cp)
  | .inner own _ children => leavesOf (own.getD arena) children

def leavesOf (arena : Nat) : List Entry → List (Nat × CheckpointRef)
  | [] => []
  | child :: rest => child.leaves arena ++ leavesOf arena rest

end

variable (read : Nat → SnapshotRef → List UInt8)

mutual

/- Nodes above a checkpoint have the start of the first and the end of the last one. -/
def Entry.Exact (arena : Nat) : Entry → Prop
  | .leaf _ _ => True
  | .inner own recorded children =>
    (∀ n ∈ own, ∀ first ∈ (leavesOf n children).head?, ∀ last ∈ (leavesOf n children).getLast?,
      ∃ cp ∈ recorded, read n cp.start = read first.1 first.2.start ∧
        read n cp.stop = read last.1 last.2.stop) ∧ AllExact (own.getD arena) children

def AllExact (arena : Nat) : List Entry → Prop
  | [] => True
  | child :: rest => child.Exact arena ∧ AllExact arena rest

end

mutual

/-
  A node that is visited reads the start of its first leaf and the end of its last one as these
  read them, and a node that is not visited is exact.
-/
def Entry.Passes (arena : Nat) : Entry → Prop
  | .leaf _ _ => True
  | .inner own _ children =>
    (∀ n ∈ own, ∀ first ∈ (leavesOf n children).head?, ∀ last ∈ (leavesOf n children).getLast?,
      read n first.2.start = read first.1 first.2.start ∧
        read n last.2.stop = read last.1 last.2.stop) ∧ AllPass (own.getD arena) true children

def AllPass (arena : Nat) (first : Bool) : List Entry → Prop
  | [] => True
  | child :: rest =>
    (if first || (lastRef rest).isNone then child.Passes arena else child.Exact read arena) ∧
      AllPass arena (first && (externalScannerCheckpointRefForStackEntry child).isNone) rest

end

mutual

/- What is passed up goes from the first leaf to the last. -/
lemma ref_eq
    (arena : Nat) :
    ∀ e : Entry,
      (externalScannerCheckpointRefForStackEntry e).map (·.start) =
        (e.leaves arena).head?.map (·.2.start) ∧
        (externalScannerCheckpointRefForStackEntry e).map (·.stop) =
          (e.leaves arena).getLast?.map (·.2.stop)
  | .leaf own checkpoint => by
    rw [externalScannerCheckpointRefForStackEntry, Entry.leaves]
    cases checkpoint <;> exact ⟨rfl, rfl⟩
  | .inner own recorded children => by
    rcases refs_eq (own.getD arena) children with ⟨hFirst, hLast⟩
    rw [externalScannerCheckpointRefForStackEntry, Entry.leaves]
    cases hLeaves : leavesOf (own.getD arena) children with
    | nil => simp_all [spanned]
    | cons leaf others =>
      cases hStart : firstRef children <;> cases hStop : lastRef children <;>
        simp_all [spanned, getLast?_cons]

lemma refs_eq (arena : Nat) :
    ∀ children : List Entry,
      (firstRef children).map (·.start) = (leavesOf arena children).head?.map (·.2.start) ∧
        (lastRef children).map (·.stop) = (leavesOf arena children).getLast?.map (·.2.stop)
  | [] => by exact ⟨rfl, rfl⟩
  | child :: rest => by
    rcases ref_eq arena child with ⟨hStart, hStop⟩
    rcases refs_eq arena rest with ⟨hFirst, hLast⟩
    rw [firstRef, lastRef, leavesOf, head?_append, getLast?_append]
    simp [Option.map_or, hStart, hStop, hFirst, hLast]

end

mutual

/- A rebuild moves no leaf. -/
lemma leaves_rebuild (arena : Nat) :
    ∀ e : Entry, (rebuildExternalScannerCheckpointForNode e).leaves arena = e.leaves arena
  | .leaf own checkpoint => rfl
  | .inner own recorded children => by
    rw [rebuildExternalScannerCheckpointForNode, Entry.leaves, Entry.leaves, leavesOf_rebuild]

lemma leavesOf_rebuild (arena : Nat) :
    ∀ (first : Bool) (children : List Entry),
      leavesOf arena (rebuildChildren first children) = leavesOf arena children
  | _, [] => rfl
  | first, child :: rest => by
    rw [rebuildChildren, leavesOf, leavesOf, leavesOf_rebuild]
    split
    · rw [leaves_rebuild]
    · rfl

end

variable {read : Nat → SnapshotRef → List UInt8}

/- A node between two leaves records the start of one and the end of the other. -/
lemma spanned_eq
    {n : Nat}
    {children : List Entry}
    {first last : Nat × CheckpointRef}
    (hFirst : first ∈ (leavesOf n children).head?)
    (hLast : last ∈ (leavesOf n children).getLast?) :
    spanned (firstRef children) (lastRef children) = some ⟨first.2.start, last.2.stop⟩ := by
  have hRefs := refs_eq n children
  rw [hFirst, hLast] at hRefs
  rcases Option.map_eq_some_iff.mp hRefs.1 with ⟨cp, hCp, hStart⟩
  rcases Option.map_eq_some_iff.mp hRefs.2 with ⟨cp', hCp', hStop⟩
  rw [hCp, hCp', spanned, hStart, hStop]

mutual

lemma exact_rebuild_iff (arena : Nat) :
    ∀ e : Entry,
      (rebuildExternalScannerCheckpointForNode e).Exact read arena ↔ e.Passes read arena
  | .leaf own checkpoint => Iff.rfl
  | .inner own recorded children => by
    rw [rebuildExternalScannerCheckpointForNode, Entry.Exact, Entry.Passes]
    refine and_congr ?_ (exact_rebuildChildren_iff _ true children)
    refine forall₂_congr fun n hOwn => ?_
    cases hOwn
    rw [leavesOf_rebuild]
    refine forall₂_congr fun first hFirst => forall₂_congr fun last hLast => ?_
    rw [spanned_eq hFirst hLast]
    simp

lemma exact_rebuildChildren_iff (arena : Nat) :
    ∀ (first : Bool) (children : List Entry),
      AllExact read arena (rebuildChildren first children) ↔ AllPass read arena first children
  | _, [] => Iff.rfl
  | first, child :: rest => by
    rw [rebuildChildren, AllExact, AllPass]
    refine and_congr ?_ (exact_rebuildChildren_iff arena _ rest)
    split_ifs with hVisited
    · exact exact_rebuild_iff arena child
    · exact Iff.rfl

end

/- A rebuild is exact just where no reference it passes up is read differently on the way. -/
theorem rebuild_exact_iff
    (read : Nat → SnapshotRef → List UInt8)
    (arena : Nat)
    (e : Entry) :
    (rebuildExternalScannerCheckpointForNode e).Exact read arena ↔ e.Passes read arena :=
  exact_rebuild_iff arena e

/- A leaf with a checkpoint in an arena. -/
def leafIn (arena : Nat) : Entry := .leaf (some arena) (some ⟨⟨0, 0, 1⟩, ⟨0, 0, 1⟩⟩)

/- An arena gives its number for every reference. -/
def numbered (arena : Nat) (_ : SnapshotRef) : List UInt8 := [UInt8.ofNat arena]

/- A leaf of another arena between two of the own one is in no record. -/
theorem rebuild_exact_around :
    (rebuildExternalScannerCheckpointForNode
      (.inner (some 0) none [leafIn 0, leafIn 1, leafIn 0])).Exact numbered 0 := by
  refine (rebuild_exact_iff _ _ _).mpr ⟨?_, trivial, trivial, trivial, trivial⟩
  rintro n ⟨⟩ first ⟨⟩ last ⟨⟩
  exact ⟨rfl, rfl⟩

/-
  A reference into the arena of a leaf is read through that of its parent, and a node between two
  checkpoints has no record.
-/
theorem rebuild_mixes_arenas :
    ¬ (rebuildExternalScannerCheckpointForNode (.inner (some 0) none [leafIn 1])).Exact
      numbered 0 ∧
      ¬
        (rebuildExternalScannerCheckpointForNode
          (.inner (some 0) none [leafIn 0, .inner (some 0) none [leafIn 0], leafIn 0])).Exact
        numbered 0 := by
  constructor
  · intro hExact
    rcases hExact.1 0 rfl _ rfl _ rfl with ⟨cp, _, hStart, _⟩
    cases hStart
  · intro hExact
    rcases hExact.2.2.1.1 0 rfl _ rfl _ rfl with ⟨cp, hNone, _⟩
    cases hNone

end GoTreeSitter.Scanner
