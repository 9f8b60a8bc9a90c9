import GoTreeSitter.Automata.Reads

/-
  Pieces of automata glued together.

  Main declarations:
    * `Automata.letters`
    * `Automata.Fan`
    * `Automata.Piece.tail`
    * `Automata.Fan.add`

  Each rule says which edges are added and which language the larger piece has: products for links,
  repetitions for edges back, sums for the branches of a fan.
-/

-- Links

namespace Automata

open Reads

open Computability

variable {α σ : Type} {edges edges' : σ → Option α → Set σ} {part part' : Set σ}
  {entry exit entry' exit' : σ} {lang lang' : Language α} {alive alive' : Prop}

/- The words of single edges. -/
def letters (labels : Set (Option α)) : Language α := {w | ∃ a ∈ labels, w = a.toList}

lemma letters_silent : letters ({none} : Set (Option α)) = 1 := by
  ext w
  rw [Language.mem_one]
  constructor
  · rintro ⟨a, ha, rfl⟩
    rw [Set.mem_singleton_iff.mp ha]
    rfl
  · rintro rfl
    exact ⟨none, rfl, rfl⟩

lemma Piece.link
    (hPiece : Piece edges part entry exit lang alive)
    (hPiece' : Piece edges part' entry' exit' lang' alive')
    (hDisjoint : Disjoint part part')
    (labels : Set (Option α))
    (hKeep : ∀ q ∈ part ∪ part', q ≠ exit → edges' q = edges q)
    (hLink : ∀ a y, y ∈ edges' exit a ↔ y ∈ edges exit a ∨ (a ∈ labels ∧ y = entry')) :
    Piece edges' (part ∪ part') entry exit' (lang * letters labels * lang')
      (alive ∧ alive' ∧ labels.Nonempty) := by
  have hKeepFirst : ∀ q ∈ part, q ≠ exit → edges' q = edges q := fun q hq => hKeep q (.inl hq)
  have hSecond : ∀ q ∈ part', edges' q = edges q := by
    intro q hq
    refine hKeep q (.inr hq) ?_
    rintro rfl
    exact Set.disjoint_left.mp hDisjoint hPiece.exit_mem hq
  have hAcross : ∀ a,
      a ∈ labels → ∀ w, Reads edges entry' w exit' → Reads edges' exit (a.toList ++ w) exit' := by
    intro a ha w hReads
    exact .step a ((hLink a entry').mpr (.inr ⟨ha, rfl⟩))
      (hReads.congr_on hPiece'.closed hSecond hPiece'.entry_mem)
  refine ⟨.inl hPiece.entry_mem, .inr hPiece'.exit_mem, ?_, ?_, ?_⟩
  · rintro q (hq | hq) a y hy
    · rcases hPiece.edge_cases hKeepFirst hLink hq hy with ⟨_, hIn⟩ | ⟨rfl, _, rfl⟩
      · exact .inl hIn
      · exact .inr hPiece'.entry_mem
    · rw [hSecond q hq] at hy
      exact .inr (hPiece'.closed q hq a hy)
  · intro w
    rw [Language.mem_mul]
    constructor
    · intro hReads
      rcases hPiece.first_new_edge hKeepFirst hLink hReads hPiece.entry_mem with
        ⟨hIn, _⟩ | ⟨u, v, a, y, rfl, hFirst, ⟨ha, rfl⟩, hRest⟩
      · exact absurd hPiece'.exit_mem (Set.disjoint_left.mp hDisjoint hIn)
      refine ⟨u ++ a.toList, ?_, v, ?_, ?_⟩
      · rw [Language.mem_mul]
        exact ⟨u, (hPiece.reads u).mp hFirst, a.toList, ⟨a, ha, rfl⟩, rfl⟩
      · rw [← hPiece'.reads]
        exact (reads_congr hPiece'.closed hSecond hPiece'.entry_mem).mp hRest
      · exact List.append_assoc u a.toList v
    · rintro ⟨x, hx, v, hv, rfl⟩
      rw [Language.mem_mul] at hx
      rcases hx with ⟨u, hu, _, ⟨a, ha, rfl⟩, rfl⟩
      rw [← hPiece.reads] at hu
      rw [← hPiece'.reads] at hv
      rw [List.append_assoc]
      exact (hPiece.reads_of_keep hKeepFirst hLink hu hPiece.entry_mem).trans (hAcross a ha v hv)
  · rintro ⟨hAlive, hAlive', a, ha⟩ q (hq | hq)
    · rcases hPiece'.live hAlive' entry' hPiece'.entry_mem with ⟨v, hv⟩
      exact hPiece.live_of_keep hKeepFirst hLink (hAcross a ha v hv) hAlive q hq
    · rcases hPiece'.live hAlive' q hq with ⟨v, hv⟩
      exact ⟨v, hv.congr_on hPiece'.closed hSecond hq⟩

-- Repetition

variable {part : Set σ} {entry exit : σ} {lang : Language α} {alive : Prop}

/- The empty word, if it may be left out. -/
def skipped (skip : Bool) : Language α :=
  if skip then 1 else 0

/- What may follow a word that may be repeated. -/
def repeated (loop : Bool) (lang : Language α) : Language α :=
  if loop then lang∗ else 1

lemma nil_mem_repeated (loop : Bool) (lang : Language α) : [] ∈ repeated loop lang := by
  unfold repeated
  split
  · exact Language.nil_mem_kstar lang
  · exact Language.nil_mem_one

lemma append_mem_repeated {u v : List α} (hFirst : u ∈ lang) (hRest : v ∈ lang∗) :
    u ++ v ∈ lang∗ := by
  rw [← Language.one_add_self_mul_kstar_eq_kstar]
  exact .inr ⟨u, hFirst, v, hRest, rfl⟩

/- A new entry and a new exit around a piece. The piece may be skipped, and it may be repeated. -/
lemma Piece.wrap
    (hPiece : Piece edges part entry exit lang alive)
    {front back : σ}
    (skip loop : Bool)
    (hFront : front ∉ part)
    (hBack : back ∉ part)
    (hApart : front ≠ back)
    (hKeep : ∀ q ∈ part, q ≠ exit → edges' q = edges q)
    (hExit : ∀ a y,
      y ∈ edges' exit a ↔ y ∈ edges exit a ∨ (a = none ∧ (y = back ∨ (loop ∧ y = entry))))
    (hEnter : ∀ a y, y ∈ edges' front a ↔ a = none ∧ (y = entry ∨ (skip ∧ y = back)))
    (hSink : ∀ a, edges' back a = ∅) :
    Piece edges' (part ∪ {front, back}) front back (skipped skip + lang * repeated loop lang)
      alive := by
  have hLeave : Reads edges' exit [] back := single (a := none) ((hExit none back).mpr
      (.inr ⟨rfl, .inl rfl⟩))
  have hEntry : Reads edges' front [] entry :=
    single (a := none) ((hEnter none entry).mpr ⟨rfl, .inl rfl⟩)
  have hOnce : ∀ u, u ∈ lang → Reads edges' entry u exit := by
    intro u hu
    rw [← hPiece.reads] at hu
    exact hPiece.reads_of_keep hKeep hExit hu hPiece.entry_mem
  -- what is read from a state of the piece to the new exit
  have hInside : ∀ {q t : σ} {w : List α},
      Reads edges' q w t → t = back → q ∈ part →
        ∃ u v, w = u ++ v ∧ Reads edges q u exit ∧ v ∈ repeated loop lang := by
    intro q t w hReads
    induction hReads with
    | done s =>
      intro hEnd hIn
      exact absurd (hEnd ▸ hIn) hBack
    | @step q next t w a hEdge hRest ih =>
      intro hEnd hIn
      subst hEnd
      rcases hPiece.edge_cases hKeep hExit hIn hEdge with
        ⟨hOld, hNext⟩ | ⟨rfl, rfl, rfl | ⟨hLoop, rfl⟩⟩
      · rcases ih rfl hNext with ⟨u, v, rfl, hu, hv⟩
        refine ⟨a.toList ++ u, v, ?_, .step a hOld hu, hv⟩
        rw [List.append_assoc]
      · rw [(hRest.of_sink hSink).1]
        exact ⟨[], [], rfl, .done q, nil_mem_repeated loop lang⟩
      rcases ih rfl hPiece.entry_mem with ⟨u, v, rfl, hu, hv⟩
      refine ⟨[], u ++ v, rfl, .done q, ?_⟩
      rw [hPiece.reads] at hu
      unfold repeated at hv ⊢
      rw [if_pos hLoop] at hv ⊢
      exact append_mem_repeated hu hv
  have hAgain : ∀ v, v ∈ repeated loop lang → Reads edges' exit v back := by
    intro v hv
    unfold repeated at hv
    split_ifs at hv with hLoop
    · rcases hv with ⟨words, rfl, hWords⟩
      induction words with
      | nil => exact hLeave
      | cons u words ih =>
        rw [List.forall_mem_cons] at hWords
        rw [List.flatten_cons]
        refine .step none ((hExit none entry).mpr (.inr ⟨rfl, .inr ⟨hLoop, rfl⟩⟩)) ?_
        exact (hOnce u hWords.1).trans (ih hWords.2)
    · rw [hv]
      exact hLeave
  refine ⟨.inr (.inl rfl), .inr (.inr rfl), ?_, ?_, ?_⟩
  · rintro q (hq | rfl | rfl) a y hy
    · rcases hPiece.edge_cases hKeep hExit hq hy with ⟨_, hIn⟩ | ⟨rfl, _, rfl | ⟨_, rfl⟩⟩
      · exact .inl hIn
      · exact .inr (.inr rfl)
      · exact .inl hPiece.entry_mem
    · rcases (hEnter a y).mp hy with ⟨_, rfl | ⟨_, rfl⟩⟩
      · exact .inl hPiece.entry_mem
      · exact .inr (.inr rfl)
    · rw [hSink a] at hy
      exact hy.elim
  · intro w
    rw [Language.mem_add, Language.mem_mul]
    constructor
    · intro hReads
      cases hReads with
      | done => exact absurd rfl hApart
      | step a hEdge hRest =>
        rcases (hEnter a _).mp hEdge with ⟨rfl, rfl | ⟨hSkip, rfl⟩⟩
        · rcases hInside hRest rfl hPiece.entry_mem with ⟨u, v, rfl, hu, hv⟩
          exact .inr ⟨u, (hPiece.reads u).mp hu, v, hv, rfl⟩
        rw [(hRest.of_sink hSink).1]
        unfold skipped
        rw [if_pos hSkip]
        exact .inl Language.nil_mem_one
    · rintro (hSkip | ⟨u, hu, v, hv, rfl⟩)
      · unfold skipped at hSkip
        split_ifs at hSkip with hMay
        · rw [hSkip]
          exact single (a := none) ((hEnter none back).mpr ⟨rfl, .inr ⟨hMay, rfl⟩⟩)
        · exact absurd hSkip (Language.notMem_zero w)
      · exact hEntry.trans ((hOnce u hu).trans (hAgain v hv))
  · intro hAlive q hq
    have hOut := hPiece.live_of_keep hKeep hExit hLeave hAlive
    rcases hq with hq | rfl | rfl
    · exact hOut q hq
    · rcases hOut entry hPiece.entry_mem with ⟨u, hu⟩
      exact ⟨[] ++ u, hEntry.trans hu⟩
    · exact ⟨[], .done q⟩

-- Rings and Tails

variable {part part' : Set σ} {entry exit entry' exit' : σ} {lang lang' : Language α}
  {alive alive' : Prop}

section

variable (hPiece : Piece edges part entry exit lang alive)

include hPiece

lemma Piece.ring {hub : σ} (hNew : hub ∉ part) (hKeep : ∀ q ∈ part, q ≠ exit → edges' q = edges q)
    (hExit : ∀ a y, y ∈ edges' exit a ↔ y ∈ edges exit a ∨ (a = none ∧ y = hub))
    (hEnter : ∀ a y, y ∈ edges' hub a ↔ a = none ∧ y = entry) :
    Piece edges' (part ∪ {hub}) hub hub lang∗ alive := by
  have hLeave : Reads edges' exit [] hub := single (a := none)
      ((hExit none hub).mpr (.inr ⟨rfl, rfl⟩))
  have hEntry : Reads edges' hub [] entry := single (a := none) ((hEnter none entry).mpr ⟨rfl, rfl⟩)
  have hInside : ∀ {q t : σ} {w : List α},
      Reads edges' q w t → t = hub →
        (q = hub → w ∈ lang∗) ∧
          (q ∈ part → ∃ u v, w = u ++ v ∧ Reads edges q u exit ∧ v ∈ lang∗) := by
    intro q t w hReads
    induction hReads with
    | done s =>
      intro hEnd
      refine ⟨fun _ => Language.nil_mem_kstar lang, ?_⟩
      intro hIn
      exact absurd (hEnd ▸ hIn) hNew
    | @step q next t w a hEdge hRest ih =>
      intro hEnd
      have hRest' := ih hEnd
      constructor
      · rintro rfl
        rcases (hEnter a next).mp hEdge with ⟨rfl, rfl⟩
        rcases hRest'.2 hPiece.entry_mem with ⟨u, v, rfl, hu, hv⟩
        rw [hPiece.reads] at hu
        change u ++ v ∈ lang∗
        exact append_mem_repeated hu hv
      intro hIn
      rcases hPiece.edge_cases hKeep hExit hIn hEdge with ⟨hOld, hNext⟩ | ⟨rfl, rfl, rfl⟩
      · rcases hRest'.2 hNext with ⟨u, v, rfl, hu, hv⟩
        refine ⟨a.toList ++ u, v, ?_, .step a hOld hu, hv⟩
        rw [List.append_assoc]
      · exact ⟨[], w, rfl, .done q, hRest'.1 rfl⟩
  refine ⟨.inr rfl, .inr rfl, ?_, ?_, ?_⟩
  · rintro q (hq | rfl) a y hy
    · rcases hPiece.edge_cases hKeep hExit hq hy with ⟨_, hIn⟩ | ⟨rfl, _, rfl⟩
      · exact .inl hIn
      · exact .inr rfl
    · rcases (hEnter a y).mp hy with ⟨_, rfl⟩
      exact .inl hPiece.entry_mem
  · intro w
    constructor
    · intro hReads
      exact (hInside hReads rfl).1 rfl
    intro hw
    rcases hw with ⟨words, rfl, hWords⟩
    induction words with
    | nil => exact .done hub
    | cons u words ih =>
      rw [List.forall_mem_cons, ← hPiece.reads] at hWords
      rw [List.flatten_cons]
      exact hEntry.trans ((hPiece.reads_of_keep hKeep hExit hWords.1 hPiece.entry_mem).trans
          (hLeave.trans (ih hWords.2)))
  · rintro hAlive q (hq | rfl)
    · exact hPiece.live_of_keep hKeep hExit hLeave hAlive q hq
    · exact ⟨[], .done q⟩

/- A piece left by a silent edge to a state without edges. -/
lemma Piece.leave {back : σ} (hBack : back ∉ part)
    (hKeep : ∀ q ∈ part, q ≠ exit → edges' q = edges q)
    (hExit : ∀ a y, y ∈ edges' exit a ↔ y ∈ edges exit a ∨ (a = none ∧ y = back))
    (hSink : ∀ a, edges' back a = ∅) :
    Piece edges' (part ∪ {back}) entry back lang alive := by
  have hLeave : Reads edges' exit [] back := single (a := none)
      ((hExit none back).mpr (.inr ⟨rfl, rfl⟩))
  refine ⟨.inl hPiece.entry_mem, .inr rfl, ?_, ?_, ?_⟩
  · rintro q (hq | rfl) a y hy
    · rcases hPiece.edge_cases hKeep hExit hq hy with ⟨_, hIn⟩ | ⟨rfl, _, rfl⟩
      · exact .inl hIn
      · exact .inr rfl
    · rw [hSink a] at hy
      exact hy.elim
  · intro w
    rw [← hPiece.reads]
    constructor
    · intro hReads
      rcases hPiece.first_new_edge hKeep hExit hReads hPiece.entry_mem with
        ⟨hIn, _⟩ | ⟨u, v, a, y, rfl, hFirst, ⟨rfl, rfl⟩, hRest⟩
      · exact absurd hIn hBack
      · rw [(hRest.of_sink hSink).1]
        simpa using hFirst
    · intro hReads
      simpa using (hPiece.reads_of_keep hKeep hExit hReads hPiece.entry_mem).trans hLeave
  · rintro hAlive q (hq | rfl)
    · exact hPiece.live_of_keep hKeep hExit hLeave hAlive q hq
    · exact ⟨[], .done q⟩

lemma Piece.tail
    (hPiece' : Piece edges part' entry' exit' lang' alive')
    (hDisjoint : Disjoint part part')
    {back : σ}
    (hBack : back ∉ part ∪ part')
    (hKeep : ∀ q ∈ part ∪ part', q ≠ exit → q ≠ exit' → edges' q = edges q)
    (hExit : ∀ a y, y ∈ edges' exit a ↔ y ∈ edges exit a ∨ (a = none ∧ (y = entry' ∨ y = back)))
    (hExit' : ∀ a y, y ∈ edges' exit' a ↔ y ∈ edges exit' a ∨ (a = none ∧ y = back))
    (hSink : ∀ a, edges' back a = ∅) :
    Piece edges' (part ∪ part' ∪ {back}) entry back (lang * (1 + lang')) (alive ∧ alive') := by
  have hApart : ∀ q ∈ part, q ∉ part' := fun q hq hq' => Set.disjoint_left.mp hDisjoint hq hq'
  have hKeepFirst : ∀ q ∈ part, q ≠ exit → edges' q = edges q := by
    intro q hq hNe
    refine hKeep q (.inl hq) hNe ?_
    rintro rfl
    exact hApart q hq hPiece'.exit_mem
  have hKeepSecond : ∀ q ∈ part', q ≠ exit' → edges' q = edges q := by
    intro q hq hNe
    refine hKeep q (.inr hq) ?_ hNe
    rintro rfl
    exact hApart q hPiece.exit_mem hq
  have hTail := hPiece'.leave (fun hIn => hBack (.inr hIn)) hKeepSecond hExit' hSink
  have hLeave : Reads edges' exit [] back := single (a := none) ((hExit none back).mpr
      (.inr ⟨rfl, .inr rfl⟩))
  have hAcross : Reads edges' exit [] entry' := single (a := none) ((hExit none entry').mpr
      (.inr ⟨rfl, .inl rfl⟩))
  refine ⟨.inl (.inl hPiece.entry_mem), .inr rfl, ?_, ?_, ?_⟩
  · rintro q ((hq | hq) | rfl) a y hy
    · rcases hPiece.edge_cases hKeepFirst hExit hq hy with ⟨_, hIn⟩ | ⟨rfl, _, rfl | rfl⟩
      · exact .inl (.inl hIn)
      · exact .inl (.inr hPiece'.entry_mem)
      · exact .inr rfl
    · exact (hTail.closed q (.inl hq) a hy).imp_left .inr
    · exact (hTail.closed q (.inr rfl) a hy).imp_left .inr
  · intro w
    rw [Language.mem_mul]
    constructor
    · intro hReads
      rcases hPiece.first_new_edge hKeepFirst hExit hReads hPiece.entry_mem with
        ⟨hIn, _⟩ | ⟨u, v, a, y, rfl, hFirst, hNew, hRest⟩
      · exact absurd (.inl hIn) hBack
      refine ⟨u, (hPiece.reads u).mp hFirst, a.toList ++ v, ?_, rfl⟩
      rcases hNew with ⟨rfl, rfl | rfl⟩
      · exact .inr ((hTail.reads v).mp hRest)
      · rw [(hRest.of_sink hSink).1]
        exact .inl Language.nil_mem_one
    · rintro ⟨u, hu, v, hv, rfl⟩
      rw [← hPiece.reads] at hu
      refine (hPiece.reads_of_keep hKeepFirst hExit hu hPiece.entry_mem).trans ?_
      rcases hv with hv | hv
      · rw [(Language.mem_one v).mp hv]
        exact hLeave
      · exact hAcross.trans ((hTail.reads v).mpr hv)
  · rintro ⟨hAlive, hAlive'⟩ q ((hq | hq) | rfl)
    · exact hPiece.live_of_keep hKeepFirst hExit hLeave hAlive q hq
    · exact hTail.live hAlive' q (.inl hq)
    · exact ⟨[], .done q⟩

end

-- Fans

variable {rest part : Set σ} {front back entry exit : σ} {sum lang : Language α}

/-
  Branches from one state to another. The state in front has silent edges only, and none leads back
  to it.
-/
structure Fan (edges : σ → Option α → Set σ) (rest : Set σ) (front back : σ) (sum : Language α)
    (alive : Prop) : Prop where
  front_notMem : front ∉ rest
  back_mem : back ∈ rest
  closed : ClosedUnder edges rest
  sink : ∀ a : Option α, edges back a = ∅
  silent : ∀ a : α, edges front (some a) = ∅
  inside : edges front none ⊆ rest
  reads : ∀ w : List α, (∃ y ∈ edges front none, Reads edges y w back) ↔ w ∈ sum
  live : alive → ∀ q ∈ rest, ∃ w : List α, Reads edges q w back

/- No branches yet. -/
lemma Fan.start (hApart : front ≠ back) (hFront : ∀ a, edges front a = ∅)
    (hBack : ∀ a, edges back a = ∅) :
    Fan edges {back} front back (0 : Language α) True where
  front_notMem := hApart
  back_mem := rfl
  closed := by
    intro q hq a
    rw [Set.mem_singleton_iff.mp hq, hBack a]
    exact Set.empty_subset _
  sink := hBack
  silent := fun a => hFront (some a)
  inside := by
    rw [hFront none]
    exact Set.empty_subset _
  reads := by
    intro w
    refine ⟨?_, fun hw => absurd hw (Language.notMem_zero w)⟩
    rintro ⟨y, hy, _⟩
    rw [hFront none] at hy
    exact hy.elim
  live := by
    intro _ q hq
    rw [Set.mem_singleton_iff.mp hq]
    exact ⟨[], .done back⟩

variable (hFan : Fan edges rest front back sum alive)

include hFan

/- A fan does not see edges elsewhere. -/
lemma Fan.congr (hSame : ∀ q ∈ rest, edges' q = edges q) (hFront : edges' front = edges front) :
    Fan edges' rest front back sum alive where
  front_notMem := hFan.front_notMem
  back_mem := hFan.back_mem
  closed := hFan.closed.congr hSame
  sink := by
    rw [hSame back hFan.back_mem]
    exact hFan.sink
  silent := by
    rw [hFront]
    exact hFan.silent
  inside := by
    rw [hFront]
    exact hFan.inside
  reads := by
    intro w
    rw [hFront, ← hFan.reads w]
    constructor
    · rintro ⟨y, hy, hReads⟩
      exact ⟨y, hy, (reads_congr hFan.closed hSame (hFan.inside hy)).mp hReads⟩
    · rintro ⟨y, hy, hReads⟩
      exact ⟨y, hy, (reads_congr hFan.closed hSame (hFan.inside hy)).mpr hReads⟩
  live := by
    intro hAlive q hq
    rcases hFan.live hAlive q hq with ⟨w, hReads⟩
    exact ⟨w, hReads.congr_on hFan.closed hSame hq⟩

/- One more branch. -/
lemma Fan.add
    (hPiece : Piece edges part entry exit lang alive')
    (hDisjoint : Disjoint rest part)
    (hFront : front ∉ part)
    (hKeep : ∀ q ∈ rest ∪ part, q ≠ exit → edges' q = edges q)
    (hEnter : ∀ a y, y ∈ edges' front a ↔ y ∈ edges front a ∨ (a = none ∧ y = entry))
    (hExit : ∀ a y, y ∈ edges' exit a ↔ y ∈ edges exit a ∨ (a = none ∧ y = back)) :
    Fan edges' (rest ∪ part) front back (sum + lang) (alive ∧ alive') := by
  have hOld : ∀ q ∈ rest, edges' q = edges q := by
    intro q hq
    refine hKeep q (.inl hq) ?_
    rintro rfl
    exact Set.disjoint_left.mp hDisjoint hq hPiece.exit_mem
  have hBody : ∀ q ∈ part, q ≠ exit → edges' q = edges q := fun q hq => hKeep q (.inr hq)
  have hSink : ∀ a, edges' back a = ∅ := by
    rw [hOld back hFan.back_mem]
    exact hFan.sink
  have hBranch := hPiece.leave (Set.disjoint_left.mp hDisjoint hFan.back_mem) hBody hExit hSink
  refine ⟨?_, .inl hFan.back_mem, ?_, hSink, ?_, ?_, ?_, ?_⟩
  · rintro (hq | hq)
    · exact hFan.front_notMem hq
    · exact hFront hq
  · rintro q (hq | hq) a y hy
    · rw [hOld q hq] at hy
      exact .inl (hFan.closed q hq a hy)
    rcases hBranch.closed q (.inl hq) a hy with hIn | rfl
    · exact .inr hIn
    · exact .inl hFan.back_mem
  · intro a
    rw [Set.eq_empty_iff_forall_notMem]
    intro y hy
    rcases (hEnter (some a) y).mp hy with hStay | ⟨hNone, _⟩
    · rw [hFan.silent a] at hStay
      exact hStay
    · cases hNone
  · intro y hy
    rcases (hEnter none y).mp hy with hStay | ⟨_, rfl⟩
    · exact .inl (hFan.inside hStay)
    · exact .inr hPiece.entry_mem
  · intro w
    rw [Language.mem_add, ← hFan.reads w, ← hBranch.reads w]
    constructor
    · rintro ⟨y, hy, hReads⟩
      rcases (hEnter none y).mp hy with hStay | ⟨_, rfl⟩
      · exact .inl ⟨y, hStay, (reads_congr hFan.closed hOld (hFan.inside hStay)).mp hReads⟩
      exact .inr hReads
    rintro (⟨y, hy, hReads⟩ | hReads)
    · exact ⟨y, (hEnter none y).mpr (.inl hy),
        (reads_congr hFan.closed hOld (hFan.inside hy)).mpr hReads⟩
    · exact ⟨entry, (hEnter none entry).mpr (.inr ⟨rfl, rfl⟩), hReads⟩
  · rintro ⟨hAlive, hAlive'⟩ q (hq | hq)
    · rcases hFan.live hAlive q hq with ⟨w, hReads⟩
      exact ⟨w, hReads.congr_on hFan.closed hOld hq⟩
    · exact hBranch.live hAlive' q (.inl hq)

lemma Fan.piece (hBranch : (edges front none).Nonempty) :
    Piece edges (insert front rest) front back sum alive where
  entry_mem := Set.mem_insert front rest
  exit_mem := Set.mem_insert_of_mem front hFan.back_mem
  closed := by
    rintro q (rfl | hq) a y hy
    · cases a with
      | none => exact .inr (hFan.inside hy)
      | some letter =>
        rw [hFan.silent letter] at hy
        exact hy.elim
    · exact .inr (hFan.closed q hq a hy)
  reads := by
    intro w
    rw [← hFan.reads w]
    constructor
    · intro hReads
      cases hReads with
      | done => exact absurd hFan.back_mem hFan.front_notMem
      | step a hEdge hRest =>
        cases a with
        | none => exact ⟨_, hEdge, hRest⟩
        | some letter =>
          rw [hFan.silent letter] at hEdge
          exact hEdge.elim
    · rintro ⟨y, hy, hReads⟩
      exact .step none hy hReads
  live := by
    rintro hAlive q (rfl | hq)
    · rcases hBranch with ⟨y, hy⟩
      rcases hFan.live hAlive y (hFan.inside hy) with ⟨w, hReads⟩
      exact ⟨w, .step none hy hReads⟩
    · exact hFan.live hAlive q hq

end Automata
