import DescriptorCheck.Document.Basic
import DescriptorCheck.Proofs.Xml.Offence

set_option autoImplicit false

namespace DescriptorCheck.Xml

namespace Outline

/-- What an accepted document asks of an item besides that no second root is closed. -/
def Permits (o : Outline) : Except Fault Event → Prop
  | .error _ => False
  | .ok (.start tag) => tag.IsSound
  | .ok (.empty tag) => tag.IsSound
  | .ok (.text content) => o.opened ≠ [] → ∃ text, Reference.replace content = .ok text
  | .ok (.close _) => True
  | .ok (.data _) => True
  | .ok .aside => True

theorem secondRoot?_eq_none_iff {outer : List String} {roots : Nat} (bound : roots ≤ 1)
    (name : String) : secondRoot? outer roots name = none ↔ (closed outer roots).roots ≤ 1 := by
  unfold secondRoot? closed
  by_cases top : outer = []
  · simp only [top, true_and, if_true]
    split
    · simp
      omega
    · simp
      omega
  · simp [top, bound]

theorem offence?_eq_none_iff {o : Outline} (bound : o.roots ≤ 1) (length : Nat)
    {item : Except Fault Event} (matched : ∀ name, item = .ok (.close name) → o.opened ≠ []) :
    o.offence? length item = none ↔ o.Permits item ∧ (o.advance item).roots ≤ 1 := by
  cases item with
  | error fault => simp [offence?, Permits]
  | ok e =>
    cases e with
    | start tag => simp [offence?, Permits, advance, next, tag.fault?_eq_none_iff, bound]
    | empty tag =>
      simp only [offence?, Option.or_eq_none_iff, tag.fault?_eq_none_iff,
        secondRoot?_eq_none_iff bound]
      rfl
    | close name =>
      obtain ⟨innermost, outer, opened⟩ := List.exists_cons_of_ne_nil (matched name rfl)
      simp [offence?, Permits, advance, next, opened, secondRoot?_eq_none_iff bound]
    | text content =>
      by_cases outside : o.opened = []
      · simp [offence?, Permits, advance, next, outside, bound]
      · simp [offence?, Permits, advance, next, outside, bound, textFault?_eq_none_iff]
    | data _ | aside => simp [offence?, Permits, advance, next, bound]

theorem firstOffence?_eq_none_iff_permits {o : Outline} (bound : o.roots ≤ 1) (length : Nat)
    {items : List (Except Fault Event)} (matched : o.EndsMatched items) :
    o.firstOffence? length items = none ↔
      (∀ i item, items[i]? = some item → (o.after (items.take i)).Permits item) ∧
        (o.after items).roots ≤ 1 := by
  induction items generalizing o with
  | nil => simpa [firstOffence?, after] using bound
  | cons item rest ih =>
    obtain ⟨here, later⟩ := endsMatched_cons.1 matched
    rw [firstOffence?, Option.or_eq_none_iff, offence?_eq_none_iff bound length here]
    have grows := (o.advance item).roots_le_after rest
    constructor
    · rintro ⟨⟨permits, bound⟩, none⟩
      obtain ⟨permitted, least⟩ := (ih bound later).1 none
      refine ⟨fun i other found => ?_, least⟩
      cases i with
      | zero =>
        obtain rfl : item = other := by simpa using found
        exact permits
      | succ i => exact permitted i other (by simpa using found)
    · rintro ⟨permitted, least⟩
      have bound : (o.advance item).roots ≤ 1 := Nat.le_trans grows least
      refine ⟨⟨permitted 0 item rfl, bound⟩, (ih bound later).2 ⟨?_, least⟩⟩
      intro i other found
      exact permitted (i + 1) other (by simpa using found)

theorem permits_iff (o : Outline) (items : List (Except Fault Event)) :
    (∀ i item, items[i]? = some item → (o.after (items.take i)).Permits item) ↔
      (∀ item ∈ items, ∃ e, item = .ok e) ∧
      (∀ tag, .ok (.start tag) ∈ items ∨ .ok (.empty tag) ∈ items → tag.IsSound) ∧
      ∀ i content, items[i]? = some (.ok (.text content)) →
        (o.after (items.take i)).opened ≠ [] →
          ∃ text, Reference.replace content = .ok text := by
  constructor
  · intro permitted
    refine ⟨fun item mem => ?_, fun tag mem => ?_, fun i content => permitted i _⟩
    · obtain ⟨i, found⟩ := List.mem_iff_getElem?.1 mem
      cases item with
      | error fault => exact (permitted i _ found).elim
      | ok e => exact ⟨e, rfl⟩
    · rcases mem with mem | mem
      · obtain ⟨i, found⟩ := List.mem_iff_getElem?.1 mem
        exact permitted i _ found
      · obtain ⟨i, found⟩ := List.mem_iff_getElem?.1 mem
        exact permitted i _ found
  · rintro ⟨delivered, sound, read⟩ i item found
    have mem := List.mem_of_getElem? found
    obtain ⟨e, rfl⟩ := delivered item mem
    cases e with
    | start tag => exact sound tag (.inl mem)
    | empty tag => exact sound tag (.inr mem)
    | text content => exact read i content found
    | close _ | data _ | aside => trivial

end Outline

theorem textFault?_ne_unexpectedEnd (content : List Char) :
    textFault? content ≠ some .unexpectedEnd := by
  unfold textFault?
  cases Reference.replace content <;> simp

theorem Tag.fault?_ne_unexpectedEnd (t : Tag) : t.fault? ≠ some .unexpectedEnd := by
  intro same
  obtain ⟨item, -, fault⟩ := List.exists_of_findSome?_eq_some same
  cases item with
  | error e => simp [attributeFault?] at fault
  | ok a =>
    rw [attributeFault?] at fault
    split at fault
    · cases fault
    · exact textFault?_ne_unexpectedEnd a.value fault

theorem Outline.offence?_ne_unexpectedEnd (length : Nat) (o : Outline)
    (item : Except Fault Event) : o.offence? length item ≠ some .unexpectedEnd := by
  have second (outer : List String) (name : String) :
      secondRoot? outer o.roots name ≠ some .unexpectedEnd := by
    unfold secondRoot?
    split <;> simp
  cases item with
  | error fault => simp [offence?]
  | ok e =>
    cases e with
    | start tag => exact tag.fault?_ne_unexpectedEnd
    | empty tag =>
      rw [offence?]
      cases fault : tag.fault? with
      | none => exact second o.opened tag.localText
      | some e =>
        rw [Option.some_or, ← fault]
        exact tag.fault?_ne_unexpectedEnd
    | close name =>
      rw [offence?]
      split
      · exact second _ _
      · simp
    | text content =>
      rw [offence?]
      split
      · simp
      · exact textFault?_ne_unexpectedEnd content
    | data _ | aside => simp [offence?]

/-- When a run over the events of a text of `length` bytes gives a value, and with
which error it ends otherwise. -/
structure Outcome (length : Nat) (items : List (Except Fault Event))
    (result : Except Error Value) : Prop where
  ok_iff : (∃ v, result = .ok v) ↔
    ((∀ item ∈ items, ∃ e, item = .ok e) ∧
      (∀ tag, .ok (.start tag) ∈ items ∨ .ok (.empty tag) ∈ items → tag.IsSound) ∧
      ∀ i content, items[i]? = some (.ok (.text content)) →
        (Outline.start.after (items.take i)).opened ≠ [] →
          ∃ text, Reference.replace content = .ok text) ∧
    (Outline.start.after items).opened = [] ∧ (Outline.start.after items).roots = 1
  error_iff : ∀ e, result = .error e ↔
    Outline.start.FirstOffence length items e ∨
    (∀ i, Outline.start.offenceAt? length items i = none) ∧
      match (Outline.start.after items).opened with
      | name :: _ => e = .unclosedElement name
      | [] => (Outline.start.after items).roots = 0 ∧ e = .noRoot
  ne_unexpectedEnd : result ≠ .error .unexpectedEnd

namespace Progress

theorem run_eq_ok_iff (length : Nat) {items : List (Except Fault Event)}
    (matched : Outline.start.EndsMatched items) :
    (∃ v, start.run length items = .ok v) ↔
      Outline.start.firstOffence? length items = none ∧
        (Outline.start.after items).opened = [] ∧ (Outline.start.after items).roots ≠ 0 := by
  have ran := run_outcome start_follows length matched
  cases fault : Outline.start.firstOffence? length items with
  | some e =>
    rw [fault] at ran
    simp [ran]
  | none =>
    rw [fault] at ran
    obtain ⟨last, ran, follows⟩ := ran
    have ended := finish_outcome follows
    rw [ran]
    cases opened : (Outline.start.after items).opened with
    | cons name outer =>
      rw [opened] at ended
      simp [ended]
    | nil =>
      rw [opened] at ended
      by_cases rootless : (Outline.start.after items).roots = 0
      · simp only [rootless, if_true] at ended
        simp [ended, rootless]
      · simp only [rootless, if_false] at ended
        simp [ended, rootless]

theorem run_eq_error_iff (length : Nat) {items : List (Except Fault Event)}
    (matched : Outline.start.EndsMatched items) (e : Error) :
    start.run length items = .error e ↔
      Outline.start.FirstOffence length items e ∨
      (∀ i, Outline.start.offenceAt? length items i = none) ∧
        match (Outline.start.after items).opened with
        | name :: _ => e = .unclosedElement name
        | [] => (Outline.start.after items).roots = 0 ∧ e = .noRoot := by
  rw [← Outline.firstOffence?_eq_some_iff, ← Outline.firstOffence?_eq_none_iff]
  have ran := run_outcome start_follows length matched
  cases fault : Outline.start.firstOffence? length items with
  | some found =>
    rw [fault] at ran
    simp [ran]
  | none =>
    rw [fault] at ran
    obtain ⟨last, ran, follows⟩ := ran
    have ended := finish_outcome follows
    rw [ran]
    cases opened : (Outline.start.after items).opened with
    | cons name outer =>
      rw [opened] at ended
      simp [ended, eq_comm]
    | nil =>
      rw [opened] at ended
      by_cases rootless : (Outline.start.after items).roots = 0
      · simp only [rootless, if_true] at ended
        simp [ended, rootless, eq_comm]
      · simp only [rootless, if_false] at ended
        obtain ⟨v, ended⟩ := ended
        simp [ended, rootless]

theorem run_ne_unexpectedEnd (length : Nat) {items : List (Except Fault Event)}
    (matched : Outline.start.EndsMatched items) :
    start.run length items ≠ .error .unexpectedEnd := by
  intro failed
  rcases (run_eq_error_iff length matched _).1 failed with ⟨i, offends, -⟩ | ⟨-, ended⟩
  · obtain ⟨item, -, offends⟩ := Option.bind_eq_some_iff.1 offends
    exact Outline.offence?_ne_unexpectedEnd length _ item offends
  · split at ended
    · cases ended
    · cases ended.2

theorem outcome (length : Nat) {items : List (Except Fault Event)}
    (matched : Outline.start.EndsMatched items) :
    Outcome length items (start.run length items) where
  ok_iff := by
    rw [run_eq_ok_iff length matched, ← Outline.permits_iff,
      Outline.firstOffence?_eq_none_iff_permits (Nat.zero_le 1) length matched]
    constructor
    · rintro ⟨⟨permitted, bound⟩, closed, some⟩
      exact ⟨permitted, closed, by omega⟩
    · rintro ⟨permitted, closed, one⟩
      exact ⟨⟨permitted, by omega⟩, closed, by omega⟩
  error_iff := run_eq_error_iff length matched
  ne_unexpectedEnd := run_ne_unexpectedEnd length matched

end Progress

/-- When XML is accepted and which error is told otherwise, for all sequences of events
that close only open elements, and for all texts, whose events are such a sequence. -/
theorem acceptance_and_first_error :
    (∀ length items, Outline.start.EndsMatched items →
      Outcome length items (Progress.start.run length items)) ∧
    ∀ text : String,
      Outline.start.EndsMatched (Event.read (skipMark text.toList)) ∧
      Outcome (Text.byteLength (skipMark text.toList)) (Event.read (skipMark text.toList))
        (Xml.read text) ∧
      Document.parse .xml text =
        match Xml.read text with
        | .ok v => .ok ⟨v, some text⟩
        | .error e => .error (.xml e) := by
  refine ⟨fun length items matched => Progress.outcome length matched, fun text => ?_⟩
  have matched := Event.endsMatched_read (skipMark text.toList)
  refine ⟨matched, Progress.outcome _ matched, ?_⟩
  unfold Document.parse
  cases Xml.read text <;> rfl

/-- Of a reference that is no entity, a second root and an element that is not closed,
the first in the text is told. -/
theorem acceptance_and_first_error_on_three_faults :
    Outline.start.EndsMatched [.ok (.empty ⟨['a']⟩), .ok (.start ⟨['b']⟩),
      .ok (.text ['&', 'x', ';']), .ok (.close ['b']), .ok (.start ⟨['c']⟩)] ∧
    Progress.start.run 17 [.ok (.empty ⟨['a']⟩), .ok (.start ⟨['b']⟩),
      .ok (.text ['&', 'x', ';']), .ok (.close ['b']), .ok (.start ⟨['c']⟩)] =
        .error (.inText (.unknownEntity 1 2 "x")) := by
  have matched : Outline.start.EndsMatched [.ok (.empty ⟨['a']⟩), .ok (.start ⟨['b']⟩),
      .ok (.text ['&', 'x', ';']), .ok (.close ['b']), .ok (.start ⟨['c']⟩)] := by
    simp [Outline.endsMatched_cons, Outline.endsMatched_nil, Outline.advance, Outline.next]
  have outcome := acceptance_and_first_error.1 17 _ matched
  exact ⟨matched, (outcome.error_iff _).2 (.inl ⟨2, by decide, by decide⟩)⟩

/-- What a namespace declaration stands for is not read, so a document is accepted
though the reference in one is no entity. -/
theorem accepts_bad_reference_in_declaration :
    (∃ d, Document.parse .xml "<a xmlns=\"&b;\"/>" = .ok d) ∧
    ∃ tag a e, .ok (.empty tag) ∈ Event.read (skipMark "<a xmlns=\"&b;\"/>".toList) ∧
      .ok a ∈ tag.attributes ∧ Reference.replace a.value = .error e := by
  have delivered : Event.read (skipMark "<a xmlns=\"&b;\"/>".toList) =
      [.ok (.empty ⟨"a xmlns=\"&b;\"".toList⟩)] := by rfl
  have declares : Tag.attributes ⟨"a xmlns=\"&b;\"".toList⟩ =
      [.ok ⟨"xmlns".toList, "&b;".toList⟩] := by rfl
  exact ⟨⟨⟨.object [], some "<a xmlns=\"&b;\"/>"⟩, by rfl⟩, _, _, .unknownEntity 1 2 "b",
    delivered ▸ List.mem_singleton_self _, declares ▸ List.mem_singleton_self _, by rfl⟩

end DescriptorCheck.Xml
