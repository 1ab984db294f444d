import DescriptorCheck.Proofs.Xml.Outline

set_option autoImplicit false

/-! Whether an event is at fault depends on the elements that are open before it and on whether
a root was closed, and on nothing else of the past. So a run ends with the error of the first
event at fault, or else as the last outline says. -/
namespace DescriptorCheck.Xml

def textFault? (content : List Char) : Option Error :=
  match Reference.replace content with
  | .ok _ => none
  | .error e => some (.inText e)

/-- The error of an attribute. The value of one that is taken for a declaration is not read. -/
def attributeFault? : Except AttributeError Attribute → Option Error
  | .error e => some (.inTag e)
  | .ok a => if a.isNamespace then none else textFault? a.value

theorem textFault?_eq_none_iff (content : List Char) :
    textFault? content = none ↔ ∃ text, Reference.replace content = .ok text := by
  unfold textFault?
  cases Reference.replace content <;> simp

namespace Tag

def fault? (t : Tag) : Option Error := t.attributes.findSome? attributeFault?

/-- All attributes are well formed, and so are the references in those that are read. -/
def IsSound (t : Tag) : Prop :=
  ∀ item ∈ t.attributes, ∃ a, item = .ok a ∧
    (a.isNamespace = false → ∃ text, Reference.replace a.value = .ok text)

theorem fault?_eq_none_iff (t : Tag) : t.fault? = none ↔ t.IsSound := by
  unfold fault? IsSound
  rw [List.findSome?_eq_none_iff]
  have one (item : Except AttributeError Attribute) : attributeFault? item = none ↔
      ∃ a, item = .ok a ∧
        (a.isNamespace = false → ∃ text, Reference.replace a.value = .ok text) := by
    cases item with
    | error e => simp [attributeFault?]
    | ok a => cases declares : a.isNamespace <;>
        simp [attributeFault?, declares, textFault?_eq_none_iff]
  simp only [one]

end Tag

namespace Frame

theorem addAttributes_outcome (entries : List (String × Value))
    (items : List (Except AttributeError Attribute)) :
    match items.findSome? attributeFault? with
    | some e => addAttributes entries items = .error e
    | none => ∃ all, addAttributes entries items = .ok all := by
  induction items generalizing entries with
  | nil => exact ⟨entries, rfl⟩
  | cons item rest ih =>
    cases item with
    | error e => rfl
    | ok a =>
      rw [List.findSome?_cons, addAttributes]
      cases declares : a.isNamespace with
      | true => simpa [attributeFault?, declares] using ih entries
      | false =>
        cases replaced : Reference.replace a.value with
        | error e => simp [attributeFault?, declares, textFault?, replaced]
        | ok text => simpa [attributeFault?, declares, textFault?, replaced] using ih _

theorem ofTag_outcome (t : Tag) :
    (∃ e, t.fault? = some e ∧ ofTag t = .error e) ∨
      (t.fault? = none ∧ ∃ f, ofTag t = .ok f ∧ f.name = t.localText) := by
  have added := addAttributes_outcome [] t.attributes
  unfold Tag.fault? ofTag
  cases fault : t.attributes.findSome? attributeFault? with
  | some e =>
    rw [fault] at added
    rw [added]
    exact .inl ⟨e, rfl, rfl⟩
  | none =>
    rw [fault] at added
    obtain ⟨entries, added⟩ := added
    rw [added]
    exact .inr ⟨rfl, ⟨t.localText, entries, []⟩, rfl, rfl⟩

end Frame

namespace Outline

/-- The error of closing an element inside of `outer` at top level once more. -/
def secondRoot? (outer : List String) (roots : Nat) (name : String) : Option Error :=
  if outer = [] ∧ roots ≠ 0 then some (.secondRoot name) else none

/-- The error of an item of the events of a text of `length` bytes. -/
def offence? (length : Nat) (o : Outline) : Except Fault Event → Option Error
  | .error fault => some (.inMarkup (length - fault.left) fault.error)
  | .ok (.start tag) => tag.fault?
  | .ok (.empty tag) => tag.fault?.or (secondRoot? o.opened o.roots tag.localText)
  | .ok (.close _) =>
    match o.opened with
    | name :: outer => secondRoot? outer o.roots name
    | [] => none
  | .ok (.text content) => if o.opened = [] then none else textFault? content
  | .ok (.data _) => none
  | .ok .aside => none

/-- The error of the item at a place, given those before it. -/
def offenceAt? (length : Nat) (o : Outline) (items : List (Except Fault Event)) (i : Nat) :
    Option Error :=
  items[i]?.bind ((o.after (items.take i)).offence? length)

/-- No item before this one is at fault, and this one is. -/
def FirstOffence (length : Nat) (o : Outline) (items : List (Except Fault Event)) (e : Error) :
    Prop :=
  ∃ i, o.offenceAt? length items i = some e ∧ ∀ j < i, o.offenceAt? length items j = none

def firstOffence? (length : Nat) (o : Outline) : List (Except Fault Event) → Option Error
  | [] => none
  | item :: rest => (o.offence? length item).or ((o.advance item).firstOffence? length rest)

section Offences

variable (length : Nat) (o : Outline) (item : Except Fault Event)
  (rest items : List (Except Fault Event))

@[simp] theorem offenceAt?_nil (i : Nat) : o.offenceAt? length [] i = none := by
  simp [offenceAt?]

@[simp] theorem offenceAt?_zero :
    o.offenceAt? length (item :: rest) 0 = o.offence? length item := by
  simp [offenceAt?, after]

@[simp] theorem offenceAt?_succ (i : Nat) : o.offenceAt? length (item :: rest) (i + 1) =
    (o.advance item).offenceAt? length rest i := by
  simp [offenceAt?, after]

theorem firstOffence?_eq_none_iff :
    o.firstOffence? length items = none ↔ ∀ i, o.offenceAt? length items i = none := by
  induction items generalizing o with
  | nil => simp [firstOffence?]
  | cons item rest ih =>
    rw [firstOffence?, Option.or_eq_none_iff, ih]
    constructor
    · rintro ⟨here, later⟩ i
      cases i with
      | zero => simpa using here
      | succ i => simpa using later i
    · intro none
      exact ⟨by simpa using none 0, fun i => by simpa using none (i + 1)⟩

theorem firstOffence?_eq_some_iff (e : Error) :
    o.firstOffence? length items = some e ↔ o.FirstOffence length items e := by
  induction items generalizing o with
  | nil => simp [firstOffence?, FirstOffence]
  | cons item rest ih =>
    unfold FirstOffence at ih ⊢
    rw [firstOffence?]
    cases here : o.offence? length item with
    | some found =>
      rw [Option.some_or]
      constructor
      · intro same
        exact ⟨0, by simpa [here] using same, fun j before => absurd before (Nat.not_lt_zero j)⟩
      · rintro ⟨i, found, first⟩
        cases i with
        | zero => simpa [here] using found
        | succ i => simpa [here] using first 0 (Nat.succ_pos i)
    | none =>
      rw [Option.none_or, ih]
      constructor
      · rintro ⟨i, found, first⟩
        refine ⟨i + 1, by simpa using found, fun j before => ?_⟩
        cases j with
        | zero => simpa using here
        | succ j => simpa using first j (Nat.lt_of_succ_lt_succ before)
      · rintro ⟨i, found, first⟩
        cases i with
        | zero => simp [here] at found
        | succ i =>
          refine ⟨i, by simpa using found, fun j before => ?_⟩
          simpa using first (j + 1) (Nat.succ_lt_succ before)

end Offences

end Outline

namespace Progress

/-- Open elements and a root as an outline tells them. -/
structure Follows (p : Progress) (o : Outline) : Prop where
  names : p.frames.map Frame.name = o.opened
  roots : p.root.toList.length = o.roots

theorem start_follows : start.Follows Outline.start := ⟨rfl, rfl⟩

theorem close_outcome {frames : List Frame} {root : Option Value} {o : Outline}
    (follows : Follows ⟨frames, root⟩ o) (f : Frame) :
    match Outline.secondRoot? o.opened o.roots f.name with
    | some e => close f frames root = .error e
    | none => ∃ p, close f frames root = .ok p ∧ p.Follows (.closed o.opened o.roots) := by
  rw [← follows.names, ← follows.roots]
  cases frames with
  | cons parent outer => exact ⟨_, rfl, by constructor <;> simp [Outline.closed]⟩
  | nil =>
    cases root with
    | none => exact ⟨_, rfl, by constructor <;> simp [Outline.closed]⟩
    | some v => simp [Outline.secondRoot?, close]

theorem step_outcome {p : Progress} {o : Outline} (follows : p.Follows o) (length : Nat)
    (e : Event) (matched : ∀ name, e = .close name → o.opened ≠ []) :
    match o.offence? length (.ok e) with
    | some fault => p.step e = .error fault
    | none => ∃ next, p.step e = .ok next ∧ next.Follows (o.next e) := by
  obtain ⟨frames, root⟩ := p
  cases e with
  | start tag =>
    simp only [Outline.offence?, step]
    obtain ⟨e, fault, failed⟩ | ⟨sound, f, opens, named⟩ := Frame.ofTag_outcome tag
    · rw [fault, failed]
      rfl
    · rw [sound, opens]
      refine ⟨_, rfl, ?_, follows.roots⟩
      simp [Outline.next, named, ← follows.names]
  | empty tag =>
    simp only [Outline.offence?, step]
    obtain ⟨e, fault, failed⟩ | ⟨sound, f, opens, named⟩ := Frame.ofTag_outcome tag
    · rw [fault, failed]
      rfl
    · rw [sound, opens, Option.none_or, ← named]
      exact close_outcome follows f
  | close name =>
    -- The reader has matched end tags, so an element is open here.
    cases frames with
    | nil => exact absurd follows.names.symm (matched name rfl)
    | cons f outer =>
      have names : o.opened = f.name :: outer.map Frame.name := follows.names.symm
      have inner : Follows ⟨outer, root⟩ ⟨outer.map Frame.name, o.roots⟩ := ⟨rfl, follows.roots⟩
      simp only [Outline.offence?, Outline.next, step, names, List.tail_cons]
      exact close_outcome inner f
  | text content =>
    have bare : frames.isEmpty = true ↔ o.opened = [] := by
      rw [← follows.names]
      simp
    simp only [Outline.offence?, step, bare]
    by_cases outside : o.opened = []
    · simp only [if_pos outside]
      exact ⟨_, rfl, follows⟩
    · simp only [if_neg outside, textFault?]
      cases Reference.replace content with
      | error e => rfl
      | ok text =>
        refine ⟨_, rfl, ?_⟩
        cases frames with
        | nil => exact follows
        | cons f outer => exact ⟨follows.names, follows.roots⟩
  | data content =>
    refine ⟨_, rfl, ?_⟩
    cases frames with
    | nil => exact follows
    | cons f outer => exact ⟨follows.names, follows.roots⟩
  | aside => exact ⟨_, rfl, follows⟩

theorem run_outcome {p : Progress} {o : Outline} (follows : p.Follows o) (length : Nat)
    {items : List (Except Fault Event)} (matched : o.EndsMatched items) :
    match o.firstOffence? length items with
    | some e => p.run length items = .error e
    | none =>
      ∃ last : Progress, p.run length items = last.finish ∧ last.Follows (o.after items) := by
  induction items generalizing p o with
  | nil => exact ⟨p, rfl, follows⟩
  | cons item rest ih =>
    obtain ⟨here, later⟩ := Outline.endsMatched_cons.1 matched
    cases item with
    | error fault => rfl
    | ok e =>
      have stepped := step_outcome follows length e fun name same => here name (congrArg _ same)
      simp only [Outline.firstOffence?, run]
      cases fault : o.offence? length (.ok e) with
      | some found =>
        rw [fault] at stepped
        rw [stepped]
        rfl
      | none =>
        rw [fault] at stepped
        obtain ⟨next, stepped, follows⟩ := stepped
        rw [stepped, Option.none_or]
        exact ih follows later

theorem finish_outcome {p : Progress} {o : Outline} (follows : p.Follows o) :
    match o.opened with
    | name :: _ => p.finish = .error (.unclosedElement name)
    | [] => if o.roots = 0 then p.finish = .error .noRoot else ∃ v, p.finish = .ok v := by
  obtain ⟨frames, root⟩ := p
  rw [← follows.names, ← follows.roots]
  cases frames with
  | cons f outer => rfl
  | nil =>
    cases root with
    | none => rfl
    | some v => cases v <;> exact ⟨_, rfl⟩

end Progress

end DescriptorCheck.Xml
