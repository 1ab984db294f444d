import DescriptorCheck.Proofs.Text.Span
import DescriptorCheck.Proofs.Yaml.Portable
import DescriptorCheck.Yaml.Token.Scan

set_option autoImplicit false

namespace DescriptorCheck.Yaml
open Json (Blanks belowBreak)

theorem normalizeBreaks_append (cs : List Char) {rest : List Char}
    (solid : rest.head? ≠ some '\n') :
    normalizeBreaks (cs ++ rest) = normalizeBreaks cs ++ normalizeBreaks rest := by
  fun_induction normalizeBreaks cs with
  | case1 => rfl
  | case2 cs ih => rw [List.cons_append, List.cons_append, normalizeBreaks, ih, List.cons_append]
  | case3 c cs alone ih =>
    rw [List.cons_append, normalizeBreaks, ih, List.cons_append]
    intro behind carriage feed
    cases cs with
    | nil => exact solid (by rw [List.nil_append] at feed; rw [feed]; rfl)
    | cons d cs => exact alone cs carriage (by rw [(List.cons.inj feed).1])

theorem normalizeBreaks_of_free {cs : List Char} (free : ∀ c ∈ cs, c ≠ '\r' ∧ c ≠ '\u0085')
    (rest : List Char) : normalizeBreaks (cs ++ rest) = cs ++ normalizeBreaks rest := by
  induction cs with
  | nil => rfl
  | cons c cs ih =>
    obtain ⟨here, later⟩ := List.forall_mem_cons.1 free
    rw [List.cons_append, normalizeBreaks, ih later]
    · simp [here.1, here.2]
    · exact fun _ same => absurd same here.1

theorem mem_normalizeBreaks (cs : List Char) :
    ∀ c ∈ normalizeBreaks cs, c = '\n' ∨ c ∈ cs ∧ c ≠ '\r' := by
  fun_induction normalizeBreaks cs with
  | case1 => simp
  | case2 cs ih =>
    simp only [List.forall_mem_cons, true_or, true_and]
    exact fun c mem => (ih c mem).imp_right (And.imp_left fun mem => by simp [mem])
  | case3 c cs alone ih =>
    simp only [List.forall_mem_cons]
    refine ⟨?_, fun d mem => (ih d mem).imp_right (And.imp_left fun mem => by simp [mem])⟩
    by_cases carriage : c = '\r'
    · simp [carriage]
    · by_cases next : c = '\u0085' <;> simp [carriage, next]

namespace Cursor

theorem skipWhile_of_append {p : Char → Bool} {c : Cursor} {cs rest : List Char}
    (spelled : c.rest = cs ++ rest) (kept : ∀ d ∈ cs, p d = true)
    (ends : ∀ d ∈ rest.head?, p d = false) :
    c.skipWhile p = ⟨rest, c.line, c.column + cs.length⟩ := by
  have taken : c.rest.takeWhile p = cs := by
    rw [spelled, Text.takeWhile_append_of_ends kept ends]
  simp only [skipWhile, takeWhile, skip, taken]
  rw [spelled, List.drop_left]

theorem skipComment_of_head {c : Cursor} (head : c.rest.head? ≠ some '#') : c.skipComment = c := by
  unfold skipComment
  split
  · rename_i comment
    simp [comment] at head
  · rfl

end Cursor

namespace Scan

def moved (c : Cursor) (keyAllowed : Bool) (s : Scan) : Scan :=
  { s with cursor := c, keyAllowed := keyAllowed }

/-- True of the characters that may stand in front of a token. A tab may where it is no
indentation. -/
def IsFiller (tabs : Bool) (c : Char) : Prop := c = ' ' ∨ c = '\n' ∨ c = '\t' ∧ tabs = true

theorem IsFiller.or {tabs : Bool} {c : Char} (filler : IsFiller tabs c) (more : Bool) :
    IsFiller (tabs || more) c := by
  rcases filler with space | feed | ⟨tab, allowed⟩
  · exact .inl space
  · exact .inr (.inl feed)
  · exact .inr (.inr ⟨tab, by rw [allowed, Bool.true_or]⟩)

/-- True of the characters that end a filler and start no comment. -/
def isSolid (c : Char) : Bool := !(c == ' ' || c == '\t' || c == '#' || c == '\ufeff' || isBreak c)

theorem skipFiller_line {s : Scan} {blanks rest : List Char}
    (spelled : s.cursor.rest = blanks ++ rest)
    (blank : ∀ c ∈ blanks, c ≠ '\n' ∧ IsFiller (s.inFlow || !s.keyAllowed) c)
    (ends : ∀ c ∈ rest.head?, c = '\n' ∨ isSolid c = true) (count : Nat) :
    s.skipFiller (count + 1) =
      let c : Cursor := ⟨rest, s.cursor.line, s.cursor.column + blanks.length⟩
      if rest.head?.any isBreak then
        skipFiller count (s.moved c.skipBreak (s.keyAllowed || !s.inFlow))
      else s.moved c s.keyAllowed := by
  have next (c : Char) (head : c ∈ rest.head?) :
      c ≠ ' ' ∧ c ≠ '\t' ∧ c ≠ '#' ∧ c ≠ '\ufeff' := by
    obtain rfl | stops := ends c head
    · decide
    · simp only [isSolid, Bool.not_eq_true', Bool.or_eq_false_iff, beq_eq_false_iff_ne] at stops
      exact ⟨stops.1.1.1.1, stops.1.1.1.2, stops.1.1.2, stops.1.2⟩
  have no_mark : (s.cursor.column = 0 && s.cursor.rest.head? == some '\ufeff') = false := by
    rw [spelled]
    cases blanks with
    | nil =>
      have head : rest.head? ≠ some '\ufeff' := fun head => (next _ head).2.2.2 rfl
      simp [head]
    | cons c blanks =>
      obtain ⟨-, rfl | rfl | ⟨rfl, -⟩⟩ := blank c List.mem_cons_self <;> simp
  have kept : ∀ c ∈ blanks, (c == ' ' || (c == '\t' && (s.inFlow || !s.keyAllowed))) = true := by
    intro c mem
    obtain ⟨feed, rfl | rfl | ⟨rfl, allowed⟩⟩ := blank c mem
    · rfl
    · contradiction
    · simpa using allowed
  have stops : ∀ c ∈ rest.head?,
      (c == ' ' || (c == '\t' && (s.inFlow || !s.keyAllowed))) = false := by
    intro c head
    obtain ⟨space, tab, -⟩ := next c head
    simp [space, tab]
  have no_comment : rest.head? ≠ some '#' := fun head => (next '#' head).2.2.1 rfl
  rw [skipFiller]
  simp only [no_mark, Bool.false_eq_true, if_false]
  rw [Cursor.skipWhile_of_append spelled kept stops, Cursor.skipComment_of_head no_comment]
  rfl

/-- Behind the first line break a tab is indentation, unless in a flow collection. -/
theorem skipFiller_spec {s : Scan} {filler rest : List Char}
    (spelled : s.cursor.rest = filler ++ rest)
    (here : ∀ c ∈ filler.takeWhile (· != '\n'), IsFiller (s.inFlow || !s.keyAllowed) c)
    (below : ∀ c ∈ filler.dropWhile (· != '\n'), IsFiller s.inFlow c)
    (ends : ∀ c ∈ rest.head?, isSolid c = true) :
    ∃ line column keyAllowed, (s.keyAllowed = true → keyAllowed = true) ∧
      ('\n' ∉ filler → line = s.cursor.line ∧ column = s.cursor.column + filler.length) ∧
      ∀ count, filler.length < count →
        s.skipFiller count = s.moved ⟨rest, line, column⟩ keyAllowed := by
  -- A step passes over the filler up to a line break, which leaves less of it.
  induction size : filler.length using Nat.strong_induction_on generalizing s filler with
  | h n ih =>
    by_cases feed : '\n' ∈ filler
    · obtain ⟨blanks, others, rfl, first⟩ := List.eq_append_cons_of_mem feed
      have kept := Text.bne_of_not_mem first
      have ends_line : ('\n' != '\n') = false := rfl
      rw [Text.takeWhile_append_cons kept ends_line] at here
      rw [Text.dropWhile_append_cons kept ends_line, List.forall_mem_cons] at below
      have blank : ∀ c ∈ blanks, c ≠ '\n' ∧ IsFiller (s.inFlow || !s.keyAllowed) c := fun c mem =>
        ⟨fun same => first (same ▸ mem), here c mem⟩
      have shorter : others.length < n := by
        simp only [List.length_append, List.length_cons] at size
        omega
      rw [List.append_assoc, List.cons_append] at spelled
      let c : Cursor := ⟨'\n' :: (others ++ rest), s.cursor.line, s.cursor.column + blanks.length⟩
      obtain ⟨line, column, keyAllowed, kept, -, skipped⟩ :=
        ih _ shorter (s := s.moved c.skipBreak (s.keyAllowed || !s.inFlow)) rfl
          (fun c mem => (below.2 c (List.takeWhile_subset _ mem)).or _)
          (fun c mem => below.2 c (List.dropWhile_subset _ mem)) rfl
      refine ⟨line, column, keyAllowed, ?_, fun none => absurd feed none, ?_⟩
      · exact fun allowed => kept (by simp [moved, allowed])
      · intro count enough
        obtain ⟨count, rfl⟩ := Nat.exists_eq_add_of_lt (Nat.zero_lt_of_lt enough)
        rw [Nat.zero_add, skipFiller_line spelled blank (by simp), if_pos (by rfl)]
        exact skipped count (by omega)
    · have whole : filler.takeWhile (· != '\n') = filler :=
        List.takeWhile_eq_self_iff.2 (Text.bne_of_not_mem feed)
      rw [whole] at here
      have blank : ∀ c ∈ filler, c ≠ '\n' ∧ IsFiller (s.inFlow || !s.keyAllowed) c := fun c mem =>
        ⟨fun same => feed (same ▸ mem), here c mem⟩
      have solid : rest.head?.any isBreak = false := by
        cases rest with
        | nil => rfl
        | cons c rest =>
          have stops := ends c rfl
          simp only [isSolid, Bool.not_eq_true', Bool.or_eq_false_iff] at stops
          simp [stops.2]
      refine ⟨_, _, _, id, fun _ => ⟨rfl, rfl⟩, ?_⟩
      intro count enough
      obtain ⟨count, rfl⟩ := Nat.exists_eq_add_of_lt (Nat.zero_lt_of_lt enough)
      rw [Nat.zero_add, skipFiller_line spelled blank fun c head => .inr (ends c head),
        if_neg (by simp [solid]), size]

theorem filler_of_isBlank {c : Char} (blank : Json.isBlank c = true) (carriage : c ≠ '\r')
    {tabs : Bool} (allowed : c = '\t' → tabs = true) : IsFiller tabs c := by
  simp only [Json.isBlank, Bool.or_eq_true, beq_iff_eq, or_assoc] at blank
  rcases blank with rfl | rfl | rfl | rfl
  · exact .inl rfl
  · exact .inr (.inl rfl)
  · exact .inr (.inr ⟨rfl, allowed rfl⟩)
  · contradiction

theorem filler_of_blanks (gap : Blanks) {tabs : Bool} (allowed : '\t' ∈ gap.chars → tabs = true) :
    ∀ c ∈ normalizeBreaks gap.chars, IsFiller tabs c := by
  intro c mem
  rcases mem_normalizeBreaks gap.chars c mem with feed | ⟨mem, carriage⟩
  · exact .inr (.inl feed)
  · exact filler_of_isBlank (gap.blank c mem) carriage fun tab => allowed (tab ▸ mem)

theorem mem_belowBreak {cs : List Char} (free : '\u0085' ∉ cs) :
    ∀ c ∈ (normalizeBreaks cs).dropWhile (· != '\n'), c = '\n' ∨ c ∈ belowBreak cs ∧ c ≠ '\r' := by
  have whole (cs : List Char) (starts : belowBreak cs = cs) :
      ∀ c ∈ (normalizeBreaks cs).dropWhile (· != '\n'),
        c = '\n' ∨ c ∈ belowBreak cs ∧ c ≠ '\r' := by
    intro c mem
    rw [starts]
    exact mem_normalizeBreaks cs c (List.dropWhile_subset _ mem)
  induction cs with
  | nil => exact whole [] rfl
  | cons c cs ih =>
    by_cases breaks : c = '\n' ∨ c = '\r'
    · exact whole (c :: cs) (by rcases breaks with rfl | rfl <;> rfl)
    · obtain ⟨feed, carriage⟩ := not_or.1 breaks
      have next : c ≠ '\u0085' := fun same => free (same ▸ List.mem_cons_self)
      have later := ih fun mem => free (List.mem_cons_of_mem c mem)
      have one : normalizeBreaks (c :: cs) = c :: normalizeBreaks cs := by
        rw [normalizeBreaks]
        · simp [carriage, next]
        · exact fun _ same => absurd same carriage
      rw [one, belowBreak, List.dropWhile_cons_of_pos (by simpa using feed),
        List.dropWhile_cons_of_pos (by simp [feed, carriage])]
      exact later

theorem filler_below_of_blanks (gap : Blanks) (tabs : '\t' ∉ belowBreak gap.chars) {inFlow : Bool} :
    ∀ c ∈ (normalizeBreaks gap.chars).dropWhile (· != '\n'), IsFiller inFlow c := by
  have free : '\u0085' ∉ gap.chars := fun mem => absurd (gap.blank _ mem) (by decide)
  intro c mem
  rcases mem_belowBreak free c mem with feed | ⟨mem, carriage⟩
  · exact .inr (.inl feed)
  · have blank := gap.blank c (List.dropWhile_subset _ mem)
    exact filler_of_isBlank blank carriage fun tab => absurd (tab ▸ mem) tabs

/-- Reading on from one scan comes to the same as reading on from the other. -/
def Leads (s t : Scan) : Prop :=
  ∀ count, s.cursor.rest.length < count →
    ∃ left, t.cursor.rest.length < left ∧ s.finish count = t.finish left

theorem Leads.trans {s t u : Scan} (first : s.Leads t) (second : t.Leads u) : s.Leads u := by
  intro count enough
  obtain ⟨middle, enough, same⟩ := first count enough
  obtain ⟨left, enough, again⟩ := second middle enough
  exact ⟨left, enough, same.trans again⟩

def IsOptional (candidate : Option Candidate) : Prop := ∀ key ∈ candidate, key.required = false

/-- The scan has read the given tokens, the last one first, stands in so many flow
collections and has the given text before it. -/
structure Stands (s : Scan) (tokens : List Token) (depth : Nat) (text : List Char) : Prop where
  columns : s.columns = []
  candidate : IsOptional s.candidate
  outer : ∀ candidate ∈ s.outer, IsOptional candidate
  tokens : s.tokens = tokens
  depth : s.outer.length = depth
  text : s.cursor.rest = normalizeBreaks text

theorem closeBlocks_of_columns {s : Scan} (columns : s.columns = []) (p : Nat → Bool) :
    s.closeBlocks p = s := by
  unfold closeBlocks
  obtain ⟨cursor, tokens, number, number_eq, opened, keyAllowed, candidate, outer⟩ := s
  cases columns
  simp

theorem dropCandidate_of_optional {s : Scan} (optional : IsOptional s.candidate) :
    s.dropCandidate = .ok { s with candidate := none } := by
  unfold dropCandidate
  rw [if_neg]
  cases candidate : s.candidate with
  | none => simp
  | some key => simp [optional key candidate]

def current (s : Scan) : Scan :=
  { s with
    candidate := s.candidate.filter (!·.isPast s.cursor)
    outer := s.outer.map (·.filter (!·.isPast s.cursor)) }

theorem dropPast_of_optional {s : Scan} (optional : IsOptional s.candidate)
    (outer : ∀ candidate ∈ s.outer, IsOptional candidate) : s.dropPast = .ok s.current := by
  have none_required (candidate : Option Candidate) (optional : IsOptional candidate) :
      candidate.any (fun key => key.required && key.isPast s.cursor) = false := by
    cases candidate with
    | none => rfl
    | some key => simp [optional key rfl]
  unfold dropPast
  simp only
  rw [if_neg]
  · rfl
  · simp only [List.any_cons, none_required _ optional, Bool.false_or, Bool.not_eq_true,
      List.any_eq_false]
    intro candidate mem
    simp [none_required candidate (outer candidate mem)]

theorem current_optional {s : Scan} {candidate : Option Candidate}
    (optional : IsOptional candidate) : IsOptional (candidate.filter (!·.isPast s.cursor)) :=
  fun key mem => optional key (Option.mem_filter_iff.1 mem).1

theorem stands_current {s : Scan} {tokens : List Token} {depth : Nat} {text : List Char}
    (stands : s.Stands tokens depth text) : s.current.Stands tokens depth text where
  columns := stands.columns
  candidate := current_optional stands.candidate
  outer := by
    simp only [current, List.mem_map, forall_exists_index, and_imp, forall_apply_eq_imp_iff₂]
    exact fun candidate mem => current_optional (stands.outer candidate mem)
  tokens := stands.tokens
  depth := (List.length_map _).trans stands.depth
  text := stands.text

theorem inFlow_of_stands {s : Scan} {tokens : List Token} {depth : Nat} {text : List Char}
    (stands : s.Stands tokens depth text) (deep : 0 < depth) : s.inFlow = true := by
  have some_outer : s.outer ≠ [] := by
    intro none
    have := stands.depth
    rw [none, List.length_nil] at this
    omega
  simpa [inFlow] using some_outer

/-- Reading on from `s` reads the token in front of which `t` stands. -/
def Faces (s t : Scan) (first : Char) (rest : List Char) : Prop :=
  ∀ count, s.cursor.rest.length < count + 1 → t.cursor.rest.length < count + 1 ∧
    s.finish (count + 1) = (t.token (count + 1) first rest).bind (finish count)

theorem Faces.leads {s t u : Scan} {first : Char} {rest : List Char} (faces : s.Faces t first rest)
    (read : ∀ count, t.cursor.rest.length < count → t.token count first rest = .ok u)
    (shorter : u.cursor.rest.length < t.cursor.rest.length) : s.Leads u := by
  intro count enough
  obtain ⟨count, rfl⟩ := Nat.exists_eq_add_of_lt (Nat.zero_lt_of_lt enough)
  rw [Nat.zero_add] at enough ⊢
  obtain ⟨room, same⟩ := faces count enough
  exact ⟨count, by omega, by rw [same, read _ room]; rfl⟩

/-- In front of a token: what was passed over leaves the rest of the scan as it was, and
a candidate on the same line stays one. -/
theorem finish_token {s : Scan} {tokens : List Token} {depth : Nat} {gap : Blanks} {first : Char}
    {rest : List Char} (stands : s.Stands tokens depth (gap.chars ++ first :: rest))
    (tabs : '\t' ∈ gap.chars → 0 < depth) (solid : isSolid first = true)
    (plain : first ≠ '\r' ∧ first ≠ '\u0085') :
    ∃ t : Scan, t.Stands tokens depth (first :: rest) ∧
      t.cursor.rest = first :: normalizeBreaks rest ∧
      (s.keyAllowed = true → t.keyAllowed = true) ∧
      ((∀ c ∈ gap.chars, c ≠ '\n' ∧ c ≠ '\r') → ∀ key ∈ s.candidate, key.line = s.cursor.line →
        s.cursor.column + gap.chars.length ≤ key.column + keyLimit → t.candidate = some key) ∧
      s.Faces t first (normalizeBreaks rest) := by
  have no_feed : first ≠ '\n' := by
    rintro rfl
    exact absurd solid (by decide)
  have head : normalizeBreaks (first :: rest) = first :: normalizeBreaks rest :=
    normalizeBreaks_of_free (by simpa using plain : ∀ c ∈ [first], _) rest
  have spelled : s.cursor.rest =
      normalizeBreaks gap.chars ++ first :: normalizeBreaks rest := by
    rw [stands.text, normalizeBreaks_append gap.chars (by simpa using no_feed), head]
  have filled := filler_of_blanks gap fun mem => inFlow_of_stands stands (tabs mem)
  obtain ⟨line, column, keyAllowed, kept, place, skipped⟩ :=
    skipFiller_spec spelled (fun c mem => (filled c (List.takeWhile_subset _ mem)).or _)
      (fun c mem => filled c (List.dropWhile_subset _ mem)) (by simpa using solid)
  let u := s.moved ⟨first :: normalizeBreaks rest, line, column⟩ keyAllowed
  have moved_stands : u.Stands tokens depth (first :: rest) := { stands with text := head.symm }
  refine ⟨u.current, stands_current moved_stands, rfl, kept, ?_, ?_⟩
  -- On the same line the place is known, so the candidate is not past it.
  · intro one_line key candidate same_line near
    have kept_gap : normalizeBreaks gap.chars = gap.chars := by
      have free : ∀ c ∈ gap.chars, c ≠ '\r' ∧ c ≠ '\u0085' := fun c mem =>
        ⟨(one_line c mem).2, fun same => absurd (same ▸ gap.blank c mem) (by decide)⟩
      simpa [normalizeBreaks] using normalizeBreaks_of_free free []
    rw [kept_gap] at place
    obtain ⟨rfl, rfl⟩ := place fun mem => (one_line _ mem).1 rfl
    have not_past : key.isPast u.cursor = false := by
      simp only [Candidate.isPast, u, moved, Bool.or_eq_false_iff, decide_eq_false_iff_not]
      omega
    exact Option.mem_filter_iff.2 ⟨candidate, by simp [not_past]⟩
  · intro count enough
    have longer : (first :: normalizeBreaks rest).length ≤ s.cursor.rest.length := by
      rw [spelled, List.length_append]
      omega
    have room : (normalizeBreaks gap.chars).length < count + 1 := by
      rw [spelled, List.length_append] at enough
      omega
    refine ⟨Nat.lt_of_le_of_lt longer enough, ?_⟩
    rw [finish, skipped (count + 1) room,
      dropPast_of_optional (s := u) stands.candidate stands.outer]
    simp only [bind, Except.bind, closeBlocks_of_columns (s := u.current) stands.columns]
    rfl

theorem note_ok {s : Scan} {tokens : List Token} {depth : Nat} {text : List Char}
    (stands : s.Stands tokens depth text) :
    ∃ candidate, s.note = .ok { s with candidate := candidate } ∧ IsOptional candidate ∧
      (s.keyAllowed = true →
        candidate = some ⟨false, s.number, s.cursor.line, s.cursor.column⟩) := by
  unfold note
  by_cases allowed : s.keyAllowed = true
  · rw [if_pos allowed, dropCandidate_of_optional stands.candidate, stands.columns]
    refine ⟨some ⟨false, _, _, _⟩, ?_, by simp [IsOptional], fun _ => rfl⟩
    simp [bind, Except.bind]
  · rw [if_neg allowed]
    exact ⟨s.candidate, rfl, stands.candidate, fun is => absurd is allowed⟩

section Marks

variable {s : Scan} {tokens : List Token} {depth : Nat} {first : Char} {rest : List Char}
  (stands : s.Stands tokens depth (first :: rest))
  (here : s.cursor.rest = first :: normalizeBreaks rest) (token : Token)

include stands here

/-- A token of one character, where the candidates and the flow collections change. -/
theorem stands_add (candidate : Option Candidate) (outer : List (Option Candidate))
    (optional : IsOptional candidate) (optionals : ∀ candidate ∈ outer, IsOptional candidate)
    (keyAllowed : Bool) :
    let t := add token 1 { s with candidate, outer, keyAllowed }
    t.Stands (token :: tokens) outer.length rest ∧ t.cursor.rest.length < s.cursor.rest.length := by
  refine ⟨?_, by simp [add, push, Cursor.skip, here]⟩
  exact {
    columns := stands.columns
    candidate := optional
    outer := optionals
    tokens := congrArg _ stands.tokens
    depth := rfl
    text := by simp [add, push, Cursor.skip, here] }

theorem openFlow_ok : ∃ t, s.openFlow token = .ok t ∧ t.Stands (token :: tokens) (depth + 1) rest ∧
    t.keyAllowed = true ∧ t.cursor.rest.length < s.cursor.rest.length := by
  obtain ⟨candidate, noted, optional, -⟩ := note_ok stands
  have opened := stands_add stands here token none _ (by simp [IsOptional])
    (List.forall_mem_cons.2 ⟨optional, stands.outer⟩) true
  rw [List.length_cons, stands.depth] at opened
  unfold openFlow
  rw [noted]
  exact ⟨_, rfl, opened.1, rfl, opened.2⟩

theorem flowEntry_ok : ∃ t, s.flowEntry = .ok t ∧ t.Stands (.flowEntry :: tokens) depth rest ∧
    t.keyAllowed = true ∧ t.cursor.rest.length < s.cursor.rest.length := by
  have added := stands_add stands here .flowEntry none _ (by simp [IsOptional])
    stands.outer true
  rw [stands.depth] at added
  unfold flowEntry
  rw [dropCandidate_of_optional stands.candidate]
  exact ⟨_, rfl, added.1, rfl, added.2⟩

end Marks

theorem closeFlow_ok {s : Scan} {tokens : List Token} {depth : Nat} {first : Char}
    {rest : List Char} (stands : s.Stands tokens (depth + 1) (first :: rest))
    (here : s.cursor.rest = first :: normalizeBreaks rest) (token : Token) :
    ∃ t, s.closeFlow token = .ok t ∧ t.Stands (token :: tokens) depth rest ∧
      t.keyAllowed = false ∧ t.cursor.rest.length < s.cursor.rest.length := by
  obtain ⟨candidate, outer, parts⟩ := List.exists_cons_of_length_eq_add_one stands.depth
  have optionals := stands.outer
  rw [parts, List.forall_mem_cons] at optionals
  have size : outer.length = depth := by
    have := stands.depth
    rw [parts, List.length_cons] at this
    omega
  have closed := stands_add stands here token candidate outer optionals.1 optionals.2 false
  rw [size] at closed
  unfold closeFlow
  rw [dropCandidate_of_optional stands.candidate]
  refine ⟨_, rfl, ?_, rfl, ?_⟩
  · simpa [parts] using closed.1
  · simpa [parts] using closed.2

theorem not_mark {c : Cursor} {first : Char} {rest : List Char} (here : c.rest = first :: rest)
    (other : first ≠ '-' ∧ first ≠ '.') : c.atDocumentMark = false := by
  unfold Cursor.atDocumentMark
  rw [here]
  split <;> simp_all

section Marks

variable {s : Scan} {tokens : List Token} {depth : Nat} {gap : Blanks} {rest : List Char}

theorem token_of_mark {first : Char} {rest : List Char} (here : s.cursor.rest = first :: rest)
    (mark : first ∈ ['[', ']', '\x7b', '\x7d', ',', ':', '"']) (count : Nat) :
    s.token count first rest =
      match first with
      | '[' => s.openFlow .flowSequenceStart
      | ']' => s.closeFlow .flowSequenceEnd
      | '\x7b' => s.openFlow .flowMappingStart
      | '\x7d' => s.closeFlow .flowMappingEnd
      | ',' => s.flowEntry
      | ':' => if s.inFlow || endsWord rest then s.value else s.plain count
      | _ => s.content (readQuoted .double count) := by
  have other : first ≠ '-' ∧ first ≠ '.' := by
    constructor <;> (rintro rfl; exact absurd mark (by decide))
  have no_mark := not_mark here other
  unfold token
  simp only [List.mem_cons, List.not_mem_nil, or_false] at mark
  rcases mark with rfl | rfl | rfl | rfl | rfl | rfl | rfl <;> simp [no_mark]

theorem leads_open {first : Char} {token : Token}
    (mark : first = '[' ∧ token = .flowSequenceStart ∨ first = '\x7b' ∧ token = .flowMappingStart)
    (stands : s.Stands tokens depth (gap.chars ++ first :: rest))
    (tabs : '\t' ∈ gap.chars → 0 < depth) :
    ∃ t, s.Leads t ∧ t.Stands (token :: tokens) (depth + 1) rest ∧ t.keyAllowed = true := by
  have solid : isSolid first = true ∧ first ≠ '\r' ∧ first ≠ '\u0085' := by
    rcases mark with ⟨rfl, -⟩ | ⟨rfl, -⟩ <;> decide
  obtain ⟨t, facing, here, -, -, faces⟩ := finish_token stands tabs solid.1 solid.2
  obtain ⟨u, opened, result, allowed, shorter⟩ := openFlow_ok facing here token
  refine ⟨u, faces.leads (fun count _ => ?_) shorter, result, allowed⟩
  rcases mark with ⟨rfl, rfl⟩ | ⟨rfl, rfl⟩ <;> rw [token_of_mark here (by decide)] <;> exact opened

theorem leads_close {first : Char} {token : Token}
    (mark : first = ']' ∧ token = .flowSequenceEnd ∨ first = '\x7d' ∧ token = .flowMappingEnd)
    (stands : s.Stands tokens (depth + 1) (gap.chars ++ first :: rest)) :
    ∃ t, s.Leads t ∧ t.Stands (token :: tokens) depth rest ∧ t.keyAllowed = false := by
  have solid : isSolid first = true ∧ first ≠ '\r' ∧ first ≠ '\u0085' := by
    rcases mark with ⟨rfl, -⟩ | ⟨rfl, -⟩ <;> decide
  obtain ⟨t, facing, here, -, -, faces⟩ :=
    finish_token stands (fun _ => Nat.succ_pos depth) solid.1 solid.2
  obtain ⟨u, closed, result, allowed, shorter⟩ := closeFlow_ok facing here token
  refine ⟨u, faces.leads (fun count _ => ?_) shorter, result, allowed⟩
  rcases mark with ⟨rfl, rfl⟩ | ⟨rfl, rfl⟩ <;> rw [token_of_mark here (by decide)] <;> exact closed

theorem leads_comma (stands : s.Stands tokens (depth + 1) (gap.chars ++ ',' :: rest)) :
    ∃ t, s.Leads t ∧ t.Stands (.flowEntry :: tokens) (depth + 1) rest ∧ t.keyAllowed = true := by
  obtain ⟨t, facing, here, -, -, faces⟩ :=
    finish_token stands (fun _ => Nat.succ_pos depth) (by decide) (by decide)
  obtain ⟨u, entered, result, allowed, shorter⟩ := flowEntry_ok facing here
  refine ⟨u, faces.leads (fun count _ => ?_) shorter, result, allowed⟩
  rw [token_of_mark here (by decide)]
  exact entered

theorem finish_end (stands : s.Stands tokens 0 gap.chars)
    (tabs : '\t' ∈ gap.chars → s.keyAllowed = false ∧ '\t' ∉ belowBreak gap.chars) (count : Nat)
    (enough : s.cursor.rest.length < count) : s.finish count = .ok tokens.reverse := by
  have spelled : s.cursor.rest = normalizeBreaks gap.chars ++ [] := by
    rw [List.append_nil, stands.text]
  have here : ∀ c ∈ normalizeBreaks gap.chars, IsFiller (s.inFlow || !s.keyAllowed) c :=
    filler_of_blanks gap fun mem => by rw [(tabs mem).1, Bool.not_false, Bool.or_true]
  have below : '\t' ∉ belowBreak gap.chars := fun mem =>
    (tabs (List.dropWhile_subset _ mem)).2 mem
  obtain ⟨line, column, keyAllowed, -, -, skipped⟩ :=
    skipFiller_spec spelled (fun c mem => here c (List.takeWhile_subset _ mem))
      (filler_below_of_blanks gap below) (by simp)
  obtain ⟨count, rfl⟩ := Nat.exists_eq_add_of_lt (Nat.zero_lt_of_lt enough)
  rw [Nat.zero_add] at enough ⊢
  have room : (normalizeBreaks gap.chars).length < count + 1 := by rwa [stands.text] at enough
  let u := s.moved ⟨[], line, column⟩ keyAllowed
  have columns : u.current.columns = [] := stands.columns
  rw [finish, skipped (count + 1) room, dropPast_of_optional (s := u) stands.candidate stands.outer]
  simp only [bind, Except.bind, closeBlocks_of_columns columns]
  have finished : u.current.cursor.rest = [] := rfl
  simp only [finished,
    dropCandidate_of_optional (s := u.current) (current_optional stands.candidate)]
  exact congrArg (fun tokens => Except.ok tokens.reverse) stands.tokens

end Marks

end Scan

end DescriptorCheck.Yaml
