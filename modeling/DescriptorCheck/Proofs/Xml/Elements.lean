import DescriptorCheck.Proofs.Document.Keys
import DescriptorCheck.Proofs.Xml.Outline
import DescriptorCheck.Proofs.Xml.Tree

set_option autoImplicit false

namespace DescriptorCheck.Xml

/-- An attribute with what its value means, unless it is taken for a declaration. -/
structure ReadAttribute where
  read : Attribute
  meant : List Char
  replace_value : read.isNamespace = false → Reference.replace read.value = .ok meant

def ReadAttribute.pair? (a : ReadAttribute) : Option (String × Value) :=
  if a.read.isNamespace then none
  else some (String.ofList (localName a.read.key), .text (String.ofList a.meant))

structure ReadTag where
  tag : Tag
  attributes : List ReadAttribute
  attributes_tag : tag.attributes = attributes.map fun a => .ok a.read

def ReadTag.pairs (t : ReadTag) : List (String × Value) :=
  t.attributes.filterMap ReadAttribute.pair?

namespace Frame

theorem exists_of_addAttributes {items : List (Except AttributeError Attribute)}
    {entries added : List (String × Value)} (done : addAttributes entries items = .ok added) :
    ∃ attributes : List ReadAttribute, items = attributes.map (fun a => .ok a.read) ∧
      added = addAll entries (attributes.filterMap ReadAttribute.pair?) := by
  induction items generalizing entries with
  | nil =>
    cases done
    exact ⟨[], rfl, rfl⟩
  | cons item rest ih =>
    cases item with
    | error e => cases done
    | ok a =>
      rw [addAttributes] at done
      by_cases declares : a.isNamespace = true
      · rw [if_pos declares] at done
        obtain ⟨attributes, rfl, rfl⟩ := ih done
        let skipped : ReadAttribute := ⟨a, [], by simp [declares]⟩
        have silent : skipped.pair? = none := if_pos declares
        exact ⟨skipped :: attributes, rfl, by rw [List.filterMap_cons_none silent]⟩
      · rw [if_neg declares] at done
        cases meant : Reference.replace a.value with
        | error e => simp [meant] at done
        | ok value =>
          rw [meant] at done
          obtain ⟨attributes, rfl, rfl⟩ := ih done
          let first : ReadAttribute := ⟨a, value, fun _ => meant⟩
          have told : first.pair? = some _ := if_neg declares
          exact ⟨first :: attributes, rfl, by rw [List.filterMap_cons_some told]; rfl⟩

theorem exists_of_ofTag {tag : Tag} {f : Frame} (done : ofTag tag = .ok f) :
    ∃ t : ReadTag, t.tag = tag ∧ f = ⟨tag.localText, addAll [] t.pairs, []⟩ := by
  obtain ⟨entries, added, done⟩ := Json.bind_eq_ok_iff.1 done
  cases done
  obtain ⟨attributes, read, rfl⟩ := exists_of_addAttributes added
  exact ⟨⟨tag, attributes, read⟩, rfl, rfl⟩

end Frame

/-- What stands in an element. The name at an end tag is the reader's to match. -/
inductive Piece where
  | element (tag : ReadTag) (content : List Piece) (ending : List Char)
  | empty (tag : ReadTag)
  | text (t : EscapedText)
  | data (content : List Char)
  | aside

namespace Piece

mutual

def events : Piece → List Event
  | element tag content ending => .start tag.tag :: (contentEvents content ++ [.close ending])
  | empty tag => [.empty tag.tag]
  | text t => [.text t.written]
  | data content => [.data content]
  | aside => [.aside]

def contentEvents : List Piece → List Event
  | [] => []
  | n :: rest => n.events ++ contentEvents rest

end

def ownText : Piece → List Char
  | text t => t.meant
  | data content => content
  | element _ _ _ | empty _ | aside => []

def contentText (content : List Piece) : List Char := content.flatMap ownText

mutual

def child? : Piece → Option (String × Value)
  | element tag content _ =>
    some (tag.tag.localText,
      Frame.value ⟨tag.tag.localText, addAll [] (tag.pairs ++ childPairs content),
        contentText content⟩)
  | empty tag =>
    some (tag.tag.localText, Frame.value ⟨tag.tag.localText, addAll [] tag.pairs, []⟩)
  | text _ | data _ | aside => none

def childPairs : List Piece → List (String × Value)
  | [] => []
  | n :: rest => n.child?.toList ++ childPairs rest

end

theorem contentEvents_append (content more : List Piece) :
    contentEvents (content ++ more) = contentEvents content ++ contentEvents more := by
  induction content with
  | nil => rfl
  | cons n rest ih => rw [List.cons_append, contentEvents, contentEvents, ih, List.append_assoc]

theorem childPairs_append (content more : List Piece) :
    childPairs (content ++ more) = childPairs content ++ childPairs more := by
  induction content with
  | nil => rfl
  | cons n rest ih => rw [List.cons_append, childPairs, childPairs, ih, List.append_assoc]

theorem contentEvents_singleton (n : Piece) : contentEvents [n] = n.events := by
  rw [contentEvents, contentEvents, List.append_nil]

theorem childPairs_singleton (n : Piece) : childPairs [n] = n.child?.toList := by
  rw [childPairs, childPairs, List.append_nil]

/-- The text holds this element as its root. -/
def IsRootOf (root : Piece) (text : String) : Prop :=
  ∃ before after, (∀ e ∈ before ++ after, e.isFiller = true) ∧
    Event.read (skipMark text.toList) = (before ++ root.events ++ after).map .ok

end Piece

structure Opened where
  tag : ReadTag
  content : List Piece

namespace Opened

def frame (o : Opened) : Frame :=
  ⟨o.tag.tag.localText, addAll [] (o.tag.pairs ++ Piece.childPairs o.content),
    Piece.contentText o.content⟩

def events (o : Opened) : List Event := .start o.tag.tag :: Piece.contentEvents o.content

def add (o : Opened) (n : Piece) : Opened := ⟨o.tag, o.content ++ [n]⟩

theorem frame_add (o : Opened) (n : Piece) : (o.add n).frame =
    ⟨o.frame.name, addAll o.frame.entries n.child?.toList, o.frame.text ++ n.ownText⟩ := by
  simp only [add, frame, Piece.childPairs_append, Piece.childPairs_singleton, Piece.contentText,
    List.flatMap_append, List.flatMap_singleton, ← List.append_assoc, addAll_append]

theorem events_add (o : Opened) (n : Piece) : (o.add n).events = o.events ++ n.events := by
  simp only [add, events, Piece.contentEvents_append, Piece.contentEvents_singleton,
    List.cons_append]

end Opened

/-- The events of elements that are not closed yet, innermost first. -/
def openedEvents : List Opened → List Event
  | [] => []
  | o :: outer => openedEvents outer ++ o.events

/-- The events outside of elements that are still open, by the root value they come to. -/
inductive AtTop : Option Value → List Event → Prop where
  | before {events : List Event} (filler : ∀ e ∈ events, e.isFiller = true) : AtTop none events
  | behind {root : Piece} {name : String} {v : Value} {before after : List Event}
      (element : root.child? = some (name, v))
      (filler : ∀ e ∈ before ++ after, e.isFiller = true) :
      AtTop (some v) (before ++ root.events ++ after)

theorem AtTop.filler {root : Option Value} {told : List Event} (top : AtTop root told) {e : Event}
    (skipped : e.isFiller = true) : AtTop root (told ++ [e]) := by
  cases top with
  | before filler =>
    exact .before (List.forall_mem_append.2 ⟨filler, List.forall_mem_singleton.2 skipped⟩)
  | behind element filler =>
    rw [List.append_assoc]
    apply AtTop.behind element
    rw [← List.append_assoc]
    exact List.forall_mem_append.2 ⟨filler, List.forall_mem_singleton.2 skipped⟩

namespace Progress

/-- The frames are those of elements whose events were met last. -/
def ComesFrom (p : Progress) (past : List Event) : Prop :=
  ∃ opened told, p.frames = opened.map Opened.frame ∧ AtTop p.root told ∧
    past = told ++ openedEvents opened

theorem comesFrom_start : start.ComesFrom [] := ⟨[], [], rfl, .before nofun, rfl⟩

section Steps

variable {root : Option Value} {told : List Event} (top : AtTop root told)

include top

theorem comesFrom_add (o : Opened) (outer : List Opened) (n : Piece) :
    ComesFrom ⟨(o.add n).frame :: outer.map Opened.frame, root⟩
      (told ++ openedEvents (o :: outer) ++ n.events) := by
  refine ⟨o.add n :: outer, told, rfl, top, ?_⟩
  simp only [openedEvents, Opened.events_add, List.append_assoc]

theorem comesFrom_close {f : Frame} {n : Piece} (element : n.child? = some (f.name, f.value))
    (outer : List Opened) {next : Progress}
    (done : close f (outer.map Opened.frame) root = .ok next) :
    next.ComesFrom (told ++ openedEvents outer ++ n.events) := by
  cases outer with
  | nil =>
    cases root with
    | some _ => cases done
    | none =>
      cases done
      cases top with
      | before filler =>
        have around : ∀ e ∈ told ++ [], e.isFiller = true := by simpa using filler
        refine ⟨[], _, rfl, .behind element around, ?_⟩
        simp [openedEvents]
  | cons o outer =>
    cases done
    have grown := comesFrom_add top o outer n
    rw [Opened.frame_add, element] at grown
    have silent : n.ownText = [] := by
      cases n with
      | element _ _ _ | empty _ | aside => rfl
      | text _ | data _ => exact absurd element (by simp [Piece.child?])
    rw [silent, List.append_nil] at grown
    exact grown

end Steps

theorem comesFrom_step {p next : Progress} {past : List Event} {e : Event}
    (known : p.ComesFrom past) (done : p.step e = .ok next) : next.ComesFrom (past ++ [e]) := by
  obtain ⟨frames, root⟩ := p
  obtain ⟨opened, told, rfl, top, rfl⟩ := known
  cases e with
  | start tag =>
    obtain ⟨f, entered, done⟩ := Json.bind_eq_ok_iff.1 done
    cases done
    obtain ⟨t, rfl, rfl⟩ := Frame.exists_of_ofTag entered
    refine ⟨⟨t, []⟩ :: opened, told, ?_, top, ?_⟩
    · simp [Opened.frame, Piece.childPairs, Piece.contentText]
    · simp [openedEvents, Opened.events, Piece.contentEvents]
  | empty tag =>
    -- The element is entered and closed in one step.
    obtain ⟨f, entered, done⟩ := Json.bind_eq_ok_iff.1 done
    obtain ⟨t, rfl, rfl⟩ := Frame.exists_of_ofTag entered
    have closed := comesFrom_close top (n := .empty t) (by rw [Piece.child?]) opened done
    rwa [Piece.events] at closed
  | close name =>
    cases opened with
    | nil => cases done
    | cons o outer =>
      have closed := comesFrom_close top (f := o.frame) (n := .element o.tag o.content name)
        (by rw [Piece.child?]; rfl) outer done
      simpa [Piece.events, openedEvents, Opened.events] using closed
  | text content =>
    cases opened with
    | nil =>
      cases done
      exact ⟨[], _, rfl, top.filler (e := .text content) rfl, by simp [openedEvents]⟩
    | cons o outer =>
      rw [step] at done
      cases meant : Reference.replace content with
      | error e => simp [meant] at done
      | ok text =>
        simp only [meant, List.map_cons, List.isEmpty_cons, Bool.false_eq_true, if_false] at done
        cases done
        have grown := comesFrom_add top o outer (.text ⟨content, text, meant⟩)
        rwa [Opened.frame_add, Piece.child?, Piece.events] at grown
  | data content =>
    cases done
    cases opened with
    | nil => exact ⟨[], _, rfl, top.filler (e := .data content) rfl, by simp [openedEvents]⟩
    | cons o outer =>
      have grown := comesFrom_add top o outer (.data content)
      rwa [Opened.frame_add, Piece.child?, Piece.events] at grown
  | aside =>
    cases done
    cases opened with
    | nil => exact ⟨[], _, rfl, top.filler (e := .aside) rfl, by simp [openedEvents]⟩
    | cons o outer =>
      have grown := comesFrom_add top o outer .aside
      rwa [Opened.frame_add, Piece.child?, Piece.events, Piece.ownText, List.append_nil] at grown

theorem atTop_of_finish {p : Progress} {past : List Event} {v : Value} (known : p.ComesFrom past)
    (done : p.finish = .ok v) : ∃ w, AtTop (some w) past ∧ v = rootValue w := by
  obtain ⟨frames, root⟩ := p
  obtain ⟨opened, told, rfl, top, rfl⟩ := known
  cases opened with
  | cons o outer => cases done
  | nil =>
    cases root with
    | none => cases done
    | some w =>
      have same := (finish_root w).symm.trans done
      refine ⟨w, ?_, (Except.ok.inj same).symm⟩
      rwa [openedEvents, List.append_nil]

theorem atTop_of_run {length : Nat} {items : List (Except Fault Event)} {p : Progress}
    {past : List Event} {v : Value} (known : p.ComesFrom past) (done : p.run length items = .ok v) :
    ∃ events w, past.map .ok ++ items = events.map .ok ∧ AtTop (some w) events ∧
      v = rootValue w := by
  induction items generalizing p past with
  | nil =>
    obtain ⟨w, top, value⟩ := atTop_of_finish known done
    exact ⟨past, w, List.append_nil _, top, value⟩
  | cons item rest ih =>
    cases item with
    | error fault => cases done
    | ok e =>
      obtain ⟨next, stepped, done⟩ := Json.bind_eq_ok_iff.1 done
      have later := ih (comesFrom_step known stepped) done
      rwa [List.map_append, List.append_assoc] at later

end Progress

theorem exists_root_of_read {text : String} {v : Value} (done : Xml.read text = .ok v) :
    ∃ (root : Piece) (name : String) (w : Value),
      root.child? = some (name, w) ∧ root.IsRootOf text ∧ v = rootValue w := by
  obtain ⟨events, w, whole, top, value⟩ := Progress.atTop_of_run Progress.comesFrom_start done
  cases top with
  | behind element filler => exact ⟨_, _, w, element, ⟨_, _, filler, whole⟩, value⟩

end DescriptorCheck.Xml
