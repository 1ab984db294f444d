import DescriptorCheck.Proofs.Xml.Markup
import DescriptorCheck.Xml.Document

set_option autoImplicit false

namespace DescriptorCheck.Xml

def Tag.localText (t : Tag) : String := String.ofList (localName t.name)

/-- The names of the open elements, innermost first, and how many elements were
closed at top level. -/
structure Outline where
  opened : List String
  roots : Nat

namespace Outline

def start : Outline := ⟨[], 0⟩

def closed (outer : List String) (roots : Nat) : Outline :=
  ⟨outer, if outer = [] then roots + 1 else roots⟩

def next (o : Outline) : Event → Outline
  | .start tag => ⟨tag.localText :: o.opened, o.roots⟩
  | .empty _ => closed o.opened o.roots
  | .close _ => closed o.opened.tail o.roots
  | .text _ | .data _ | .aside => o

def advance (o : Outline) : Except Fault Event → Outline
  | .ok e => o.next e
  | .error _ => o

def after (o : Outline) (items : List (Except Fault Event)) : Outline := items.foldl advance o

/-- No end tag stands where no element is open. -/
def EndsMatched (o : Outline) (items : List (Except Fault Event)) : Prop :=
  ∀ i name, items[i]? = some (.ok (.close name)) → (o.after (items.take i)).opened ≠ []

theorem endsMatched_nil (o : Outline) : o.EndsMatched [] := by
  intro i name found
  simp at found

theorem endsMatched_cons {o : Outline} {item : Except Fault Event}
    {rest : List (Except Fault Event)} :
    o.EndsMatched (item :: rest) ↔
      (∀ name, item = .ok (.close name) → o.opened ≠ []) ∧ (o.advance item).EndsMatched rest := by
  constructor
  · intro matched
    refine ⟨fun name closes => matched 0 name (by simp [closes]), ?_⟩
    intro i name found
    exact matched (i + 1) name (by simpa using found)
  · rintro ⟨here, later⟩ i name found
    cases i with
    | zero => exact here name (by simpa using found)
    | succ i => exact later i name (by simpa using found)

theorem roots_le_next (o : Outline) (e : Event) : o.roots ≤ (o.next e).roots := by
  cases e with
  | start _ | text _ | data _ | aside => exact Nat.le_refl _
  | empty _ | close _ =>
    simp only [next, closed]
    split <;> omega

theorem roots_le_after (o : Outline) (items : List (Except Fault Event)) :
    o.roots ≤ (o.after items).roots := by
  induction items generalizing o with
  | nil => exact Nat.le_refl _
  | cons item rest ih =>
    have here : o.roots ≤ (o.advance item).roots := by
      cases item with
      | error _ => exact Nat.le_refl _
      | ok e => exact o.roots_le_next e
    exact Nat.le_trans here (ih (o.advance item))

end Outline

/-- What an event does to the names of the open elements. -/
inductive Event.Moves : List (List Char) → Event → List (List Char) → Prop where
  | start (opened : List (List Char)) (tag : Tag) : Moves opened (.start tag) (tag.name :: opened)
  | close (name : List Char) (outer : List (List Char)) : Moves (name :: outer) (.close name) outer
  | empty (opened : List (List Char)) (tag : Tag) : Moves opened (.empty tag) opened
  | data (opened : List (List Char)) (content : List Char) : Moves opened (.data content) opened
  | aside (opened : List (List Char)) : Moves opened .aside opened

namespace Event

section Kinds

variable {cs rest : List Char} {e : Event}

theorem eq_aside_of_readComment (read : readComment cs = .ok (e, rest)) : e = .aside := by
  rw [readComment] at read
  split at read
  · cases read
  · split_ifs at read
    cases read
    rfl

theorem eq_data_of_readData (read : readData cs = .ok (e, rest)) :
    ∃ content, e = .data content := by
  rw [readData] at read
  split at read
  · cases read
  · split at read
    · next content _ =>
      cases read
      exact ⟨content, rfl⟩
    · cases read

theorem eq_aside_of_readDoctype (read : readDoctype cs = .ok (e, rest)) : e = .aside := by
  rw [readDoctype] at read
  split at read
  · cases read
  · split_ifs at read
    cases read
    rfl

theorem eq_aside_of_readInstruction (read : readInstruction cs = .ok (e, rest)) :
    e = .aside := by
  rw [readInstruction.eq_def] at read
  split at read
  · cases read
  · split at read
    · cases read
      rfl
    · cases read

end Kinds

theorem moves_of_readMarkup {opened outer : List (List Char)} {cs rest : List Char} {e : Event}
    (read : readMarkup opened cs = .ok (e, outer, rest)) : Moves opened e outer := by
  have aside {result : Except Fault (Event × List Char)} (same : e = .aside)
      (mapped : (result.map fun read => (read.1, opened, read.2)) = .ok (e, outer, rest)) :
      Moves opened e outer := by
    rw [same, (ok_of_map_aside mapped).2]
    exact .aside opened
  rw [readMarkup.eq_def] at read
  split at read
  · split at read
    · exact aside (eq_aside_of_readComment (ok_of_map_aside read).1) read
    · obtain ⟨content, rfl⟩ := eq_data_of_readData (ok_of_map_aside read).1
      rw [(ok_of_map_aside read).2]
      exact .data opened content
    · exact aside (eq_aside_of_readDoctype (ok_of_map_aside read).1) read
    · exact aside (eq_aside_of_readDoctype (ok_of_map_aside read).1) read
    · cases read
  · exact aside (eq_aside_of_readInstruction (ok_of_map_aside read).1) read
  · split at read
    · cases read
    · split at read
      · cases read
      · next innermost behind =>
        dsimp only at read
        split_ifs at read with same
        cases read
        rw [same]
        exact .close _ _
  · split at read
    · cases read
    · split_ifs at read
      · cases read
        exact .empty _ _
      · cases read
        exact .start _ _

theorem endsMatched_readFrom (count : Nat) (opened : List (List Char)) (cs : List Char)
    (o : Outline) (depth : o.opened.length = opened.length) :
    o.EndsMatched (readFrom count opened cs) := by
  induction count generalizing opened cs o with
  | zero => exact o.endsMatched_nil
  | succ count ih =>
    cases cs with
    | nil => exact o.endsMatched_nil
    | cons c more =>
      by_cases markup : c = '<'
      · subst markup
        rw [readFrom]
        cases read : readMarkup opened more with
        | error fault =>
          exact Outline.endsMatched_cons.2 ⟨fun _ => by simp, Outline.endsMatched_nil _⟩
        | ok taken =>
          obtain ⟨e, outer, rest⟩ := taken
          have moves := moves_of_readMarkup read
          refine Outline.endsMatched_cons.2 ⟨?_, ih outer rest _ ?_⟩
          · rintro name closes empty
            cases closes
            cases moves
            rw [empty] at depth
            contradiction
          · cases moves with
            | start | close =>
              simp only [Outline.advance, Outline.next, Outline.closed, List.length_cons,
                List.length_tail] at depth ⊢
              omega
            | empty | data | aside => exact depth
      · rw [readFrom_text markup]
        exact Outline.endsMatched_cons.2 ⟨fun _ => by simp, ih opened _ o depth⟩

theorem endsMatched_read (cs : List Char) : Outline.start.EndsMatched (read cs) :=
  endsMatched_readFrom _ [] cs Outline.start rfl

end Event

end DescriptorCheck.Xml
