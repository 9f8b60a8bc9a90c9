import GoTreeSitter.Language.Table

/-
  Payloads of the parse stack and their equivalence.

  Main declarations:
    * `Payload`
    * `EquivScratch`
    * `equivalent_iff_signature_eq`

  A stack entry points at a node of the tree, at a compact form of one, or at nothing. Different
  forms are compared by different rules. Without a scratch, and as long as no payload has an error,
  all rules agree on one signature.
-/

-- Payloads

namespace GoTreeSitter

/- The flags of a node that equivalence looks at. -/
structure NodeFlags where
  named : Bool := false
  extra : Bool := false
  missing : Bool := false
  hasError : Bool := false
  deriving DecidableEq

/- What every form of a payload knows. -/
structure PayloadHeader where
  symbol : Symbol
  startByte : UInt32
  endByte : UInt32
  flags : NodeFlags := {}
  parseState : StateID := 0
  preGotoState : StateID := 0
  productionID : UInt16 := 0
  deriving DecidableEq

/- What is compared of a child of a node. -/
structure ChildHeader where
  symbol : Symbol
  startByte : UInt32
  endByte : UInt32
  named : Bool := false
  extra : Bool := false
  hasError : Bool := false
  parseState : StateID := 0
  preGotoState : StateID := 0
  productionID : UInt16 := 0
  fieldIDCount : Nat := 0
  childCount : Nat := 0
  deriving DecidableEq

/- The forms of a payload. -/
inductive PayloadBody where
  | node (children : List (Option ChildHeader)) (fieldIDs : List UInt16) (fieldSources : List UInt8)
  | noTreeNode
  | compactFullLeaf
  | pendingParent (childEntryCount : Nat) (hasFieldEntries : Bool)
  deriving DecidableEq

/- A payload.  Its `id` tells it from all others. -/
structure Payload where
  id : Nat
  header : PayloadHeader
  dynamicPrecedence : Int := 0
  rawShapeHash : Option UInt64 := none
  body : PayloadBody := .node [] [] []
  deriving DecidableEq

variable (a b p : Payload)

/- A leaf of the tree, shifted into a state. -/
def newLeafNode (id : Nat) (symbol : Symbol) (startByte endByte : UInt32) (parseState : StateID)
    (dynamicPrecedence : Int) : Payload where
  id := id
  header :=
    { symbol := symbol, startByte := startByte
      endByte := endByte, parseState := parseState }
  dynamicPrecedence := dynamicPrecedence

def errorSymbol : Symbol := 65535

def fieldSourceNone : UInt8 := 0

def fieldSourceDirect : UInt8 := 1

namespace Payload

/- The number of children a payload reports. -/
def childCount : Nat :=
  match p.body with
  | .node children _ _ => children.length
  | .pendingParent count _ => count
  | _ => 0

def fieldIDCount : Nat :=
  match p.body with
  | .node _ fieldIDs _ => fieldIDs.length
  | .pendingParent count true => count
  | _ => 0

def isPendingParent : Bool :=
  match p.body with
  | .pendingParent _ _ => true
  | _ => false

/- No error, nothing missing, and not an error node. -/
def clean : Bool :=
  !p.header.flags.hasError && !p.header.flags.missing && p.header.symbol != errorSymbol

/- Header and counts, for forms that are not both nodes. -/
def headersEquivalent : Bool :=
  a.header == b.header && a.childCount == b.childCount && a.fieldIDCount == b.fieldIDCount

end Payload

/- A field without a source is a direct one. -/
def normalizedFieldSource (fieldID : UInt16) (source : UInt8) : UInt8 :=
  if fieldID = 0 then
    fieldSourceNone
  else if source = fieldSourceNone then
    fieldSourceDirect
  else
    source

/- The fields of a node with their sources. -/
def normalizedFields : List UInt16 → List UInt8 → List (UInt16 × UInt8)
  | [], _ => []
  | id :: ids, [] => (id, normalizedFieldSource id fieldSourceNone) :: normalizedFields ids []
  | id :: ids, source :: sources =>
    (id, normalizedFieldSource id source) :: normalizedFields ids sources

-- Equivalence

/-
  What a scratch adds: the exact comparison of raw shapes for certified languages, and the arena
  that holds the children of pending parents.
-/
structure EquivScratch where
  exactCertified : Bool := false
  hasArena : Bool := false
  pendingChildrenEquivalent : Payload → Payload → Bool := fun _ _ => false

/- Nodes with the same header, fields and child headers. -/
def nodesEquivalentIgnoringDynamic (aChildren bChildren : List (Option ChildHeader))
    (aFields bFields : List (UInt16 × UInt8)) : Bool :=
  if a = b then
    true
  else
    a.header == b.header && aChildren.length == bChildren.length && aFields == bFields &&
      (a.header.flags.hasError || aChildren == bChildren)

/- Certified languages also tell raw shapes apart. -/
def rawShapesAgree (scratch : Option EquivScratch) (a b : Payload) : Bool :=
  match scratch with
  | some s =>
    if s.exactCertified && s.hasArena then
      match a.rawShapeHash, b.rawShapeHash with
      | some x, some y => x == y
      | _, _ => true
    else
      true
  | none => true

/- Pending parents are alike with their children. -/
def pendingExactlyEquivalent (scratch : Option EquivScratch) (a b : Payload) : Bool :=
  if a = b then
    true
  else if a.headersEquivalent b then
    if a.childCount = 0 then
      true
    else
      match scratch with
      | some s => s.hasArena && s.pendingChildrenEquivalent a b
      | none => false
  else
    false

/- Equivalence of two entries but for the precedence. -/
def payloadsEquivalentIgnoringDynamic (scratch : Option EquivScratch) :
    Option Payload → Option Payload → Bool
  | none, none => true
  | some a, some b =>
    if a.isPendingParent || b.isPendingParent then
      pendingExactlyEquivalent scratch a b
    else
      match a.body, b.body with
      | .node aChildren aIDs aSources, .node bChildren bIDs bSources =>
        nodesEquivalentIgnoringDynamic a b aChildren bChildren (normalizedFields aIDs aSources)
          (normalizedFields bIDs bSources) && rawShapesAgree scratch a b
      | _, _ => a.headersEquivalent b
  | _, _ => false

-- Signatures

/- What the rules compare of a payload without errors. -/
structure PayloadSignature where
  header : PayloadHeader
  childCount : Nat
  children : List (Option ChildHeader)
  fieldIDCount : Nat
  fields : List (UInt16 × UInt8)
  identity : Option Payload
  deriving DecidableEq

/- A pending parent with children is like itself only. -/
def Payload.signature : PayloadSignature where
  header := p.header
  childCount := p.childCount
  children :=
    match p.body with
    | .node children _ _ => children
    | _ => []
  fieldIDCount := p.fieldIDCount
  fields :=
    match p.body with
    | .node _ fieldIDs fieldSources => normalizedFields fieldIDs fieldSources
    | _ => []
  identity :=
    match p.body with
    | .pendingParent (_ + 1) _ => some p
    | _ => none

lemma length_normalizedFields (ids : List UInt16) (sources : List UInt8) :
    (normalizedFields ids sources).length = ids.length := by
  induction ids generalizing sources with
  | nil => rfl
  | cons id ids ih =>
    cases sources with
    | nil => rw [normalizedFields, List.length_cons, ih, List.length_cons]
    | cons source sources => rw [normalizedFields, List.length_cons, ih, List.length_cons]

variable {a b : Payload} {p : Payload}

lemma headersEquivalent_of_signature_eq (hSignature : a.signature = b.signature) :
    a.headersEquivalent b := by
  have hHeader := congrArg PayloadSignature.header hSignature
  have hCount := congrArg PayloadSignature.childCount hSignature
  have hFields := congrArg PayloadSignature.fieldIDCount hSignature
  unfold Payload.headersEquivalent
  simp only [Bool.and_eq_true, beq_iff_eq]
  exact ⟨⟨hHeader, hCount⟩, hFields⟩

lemma signature_of_childless (hChildren : p.childCount = 0) (hFields : p.fieldIDCount = 0) :
    p.signature =
      { header := p.header, childCount := 0, children := []
        fieldIDCount := 0, fields := []
        identity := none } := by
  rcases p with ⟨id, header, precedence, shape, body⟩
  cases body with
  | node children fieldIDs fieldSources =>
    rw [List.length_eq_zero_iff.mp hChildren, List.length_eq_zero_iff.mp hFields]
    rfl
  | noTreeNode => rfl
  | compactFullLeaf => rfl
  | pendingParent count hasFieldEntries =>
    rw [show count = 0 from hChildren]
    cases hasFieldEntries <;> rfl

/- Alike from above and childless, they are alike. -/
lemma signature_eq_of_childless (hHeaders : a.headersEquivalent b) (hChildren : a.childCount = 0)
    (hFields : a.fieldIDCount = 0) :
    a.signature = b.signature := by
  unfold Payload.headersEquivalent at hHeaders
  simp only [Bool.and_eq_true, beq_iff_eq] at hHeaders
  rcases hHeaders with ⟨⟨hHeader, hCount⟩, hCountFields⟩
  rw [signature_of_childless hChildren hFields, signature_of_childless (hCount ▸ hChildren)
    (hCountFields ▸ hFields), hHeader]

lemma fieldIDCount_of_pending (hPending : p.isPendingParent) (hChildren : p.childCount = 0) :
    p.fieldIDCount = 0 := by
  rcases p with ⟨id, header, precedence, shape, body⟩
  cases body with
  | pendingParent count hasFieldEntries =>
    cases hasFieldEntries with
    | false => rfl
    | true => exact hChildren
  | node children fieldIDs fieldSources => cases hPending
  | noTreeNode => cases hPending
  | compactFullLeaf => cases hPending

lemma eq_of_signature_eq_of_pending (hPending : a.isPendingParent) (hChildren : a.childCount ≠ 0)
    (hSignature : a.signature = b.signature) :
    a = b := by
  have hIdentity := congrArg PayloadSignature.identity hSignature
  rcases a with ⟨id, header, precedence, shape, body⟩
  cases body with
  | pendingParent count hasFieldEntries =>
    cases count with
    | zero => exact absurd rfl hChildren
    | succ count =>
      rcases b with ⟨id', header', precedence', shape', body'⟩
      cases body' with
      | pendingParent count' hasFieldEntries' =>
        cases count' with
        | zero => cases hIdentity
        | succ count' => exact Option.some.inj hIdentity
      | node children fieldIDs fieldSources => cases hIdentity
      | noTreeNode => cases hIdentity
      | compactFullLeaf => cases hIdentity
  | node children fieldIDs fieldSources => cases hPending
  | noTreeNode => cases hPending
  | compactFullLeaf => cases hPending

lemma pendingExactlyEquivalent_iff (hPending : (a.isPendingParent || b.isPendingParent)) :
    pendingExactlyEquivalent none a b ↔ a.signature = b.signature := by
  unfold pendingExactlyEquivalent
  by_cases hSame : a = b
  · subst hSame
    simp
  rw [if_neg hSame]
  by_cases hHeaders : a.headersEquivalent b
  · have hCount : a.childCount = b.childCount := by
      unfold Payload.headersEquivalent at hHeaders
      simp only [Bool.and_eq_true, beq_iff_eq] at hHeaders
      exact hHeaders.1.2
    have hCountFields : a.fieldIDCount = b.fieldIDCount := by
      unfold Payload.headersEquivalent at hHeaders
      simp only [Bool.and_eq_true, beq_iff_eq] at hHeaders
      exact hHeaders.2
    rw [if_pos hHeaders]
    rw [Bool.or_eq_true] at hPending
    split_ifs with hChildren
    · refine ⟨fun _ => ?_, fun _ => rfl⟩
      refine signature_eq_of_childless hHeaders hChildren ?_
      rcases hPending with hA | hB
      · exact fieldIDCount_of_pending hA hChildren
      · rw [hCountFields]
        exact fieldIDCount_of_pending hB (hCount ▸ hChildren)
    · refine ⟨nofun, fun hSignature => ?_⟩
      rcases hPending with hA | hB
      · exact absurd (eq_of_signature_eq_of_pending hA hChildren hSignature) hSame
      · exact absurd (eq_of_signature_eq_of_pending hB
            (hCount ▸ hChildren) hSignature.symm).symm hSame
  · rw [if_neg hHeaders]
    refine ⟨nofun, fun hSignature => ?_⟩
    exact absurd (headersEquivalent_of_signature_eq hSignature) hHeaders

lemma headersEquivalent_iff
    (hChildless : (a.childCount = 0 ∧ a.fieldIDCount = 0) ∨
      (b.childCount = 0 ∧ b.fieldIDCount = 0)) :
    a.headersEquivalent b ↔ a.signature = b.signature := by
  refine ⟨fun hHeaders => ?_, headersEquivalent_of_signature_eq⟩
  have hCounts := hHeaders
  unfold Payload.headersEquivalent at hCounts
  simp only [Bool.and_eq_true, beq_iff_eq] at hCounts
  rcases hChildless with ⟨hChildren, hFields⟩ | hB
  · exact signature_eq_of_childless hHeaders hChildren hFields
  · exact signature_eq_of_childless hHeaders (hCounts.1.2.trans hB.1) (hCounts.2.trans hB.2)

lemma childless_of_compact (hPending : p.isPendingParent = false)
    (hNode : ∀ children fieldIDs fieldSources, p.body ≠ .node children fieldIDs fieldSources) :
    p.childCount = 0 ∧ p.fieldIDCount = 0 := by
  rcases p with ⟨id, header, precedence, shape, body⟩
  cases body with
  | node children fieldIDs fieldSources => exact absurd rfl (hNode children fieldIDs fieldSources)
  | noTreeNode => exact ⟨rfl, rfl⟩
  | compactFullLeaf => exact ⟨rfl, rfl⟩
  | pendingParent count hasFieldEntries => cases hPending

lemma nodesEquivalent_iff
    {aChildren bChildren : List (Option ChildHeader)}
    {aIDs bIDs : List UInt16}
    {aSources bSources : List UInt8}
    (hClean : a.header.flags.hasError = false)
    (hA : a.body = .node aChildren aIDs aSources)
    (hB : b.body = .node bChildren bIDs bSources) :
    nodesEquivalentIgnoringDynamic a b aChildren bChildren (normalizedFields aIDs aSources)
      (normalizedFields bIDs bSources) ↔
      a.signature = b.signature := by
  unfold nodesEquivalentIgnoringDynamic Payload.signature Payload.childCount Payload.fieldIDCount
  rw [hA, hB, hClean]
  by_cases hSame : a = b
  · subst hSame
    rw [hA] at hB
    cases hB
    simp
  rw [if_neg hSame]
  simp only [Bool.and_eq_true, beq_iff_eq, Bool.false_or, PayloadSignature.mk.injEq, and_true]
  constructor
  · rintro ⟨⟨⟨hHeader, hLength⟩, hFields⟩, hChildren⟩
    have hCount := congrArg List.length hFields
    rw [length_normalizedFields, length_normalizedFields] at hCount
    exact ⟨hHeader, hLength, hChildren, hCount, hFields⟩
  · rintro ⟨hHeader, hLength, hChildren, _, hFields⟩
    exact ⟨⟨⟨hHeader, hLength⟩, hFields⟩, hChildren⟩

/-
  Without a scratch payloads free of errors are equivalent
  exactly when they have the same signature.
-/
lemma equivalent_iff_signature_eq {a b : Option Payload}
    (hClean : ∀ p ∈ a, p.header.flags.hasError = false) :
    payloadsEquivalentIgnoringDynamic none a b ↔
      a.map Payload.signature = b.map Payload.signature := by
  cases a with
  | none =>
    cases b with
    | none => simp [payloadsEquivalentIgnoringDynamic]
    | some b => simp [payloadsEquivalentIgnoringDynamic]
  | some a =>
    cases b with
    | none => simp [payloadsEquivalentIgnoringDynamic]
    | some b =>
      have hError := hClean a rfl
      rw [Option.map_some, Option.map_some, Option.some.injEq]
      rw [payloadsEquivalentIgnoringDynamic]
      split_ifs with hPending
      · exact pendingExactlyEquivalent_iff hPending
      simp only [Bool.or_eq_true, not_or, Bool.not_eq_true] at hPending
      split
      · rename_i hA hB
        rw [rawShapesAgree.eq_def, Bool.and_true]
        exact nodesEquivalent_iff hError hA hB
      rename_i hMixed
      apply headersEquivalent_iff
      by_cases hNode : ∃ children fieldIDs fieldSources, a.body = .node children fieldIDs
          fieldSources
      · rcases hNode with ⟨children, ids, sources, hA⟩
        right
        refine childless_of_compact hPending.2 ?_
        intro children' ids' sources' hB
        exact hMixed _ _ _ _ _ _ hA hB
      · left
        refine childless_of_compact hPending.1 ?_
        intro children ids sources hA
        exact hNode ⟨children, ids, sources, hA⟩

end GoTreeSitter
