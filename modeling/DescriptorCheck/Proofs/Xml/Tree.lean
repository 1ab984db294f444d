import DescriptorCheck.Document.Basic
import DescriptorCheck.Proofs.Xml.Attributes

set_option autoImplicit false

namespace DescriptorCheck.Xml

/-- Text as it is written, with what it means. -/
structure EscapedText where
  written : List Char
  meant : List Char
  replace_written : Reference.replace written = .ok meant

inductive Node where
  | element (tag : SpeltTag) (named : localName tag.name ≠ []) (content : List Node)
  | empty (tag : SpeltTag) (named : localName tag.name ≠ [])
  | text (t : EscapedText)
  | data (content : List Char)
  | aside

namespace Node

mutual

def events : Node → List Event
  | element tag _ content => .start tag.tag :: (contentEvents content ++ [.close tag.name])
  | empty tag _ => [.empty tag.tag]
  | text t => [.text t.written]
  | data content => [.data content]
  | aside => [.aside]

def contentEvents : List Node → List Event
  | [] => []
  | n :: rest => n.events ++ contentEvents rest

end

def ownText : Node → List Char
  | text t => t.meant
  | data content => content
  | element _ _ _ | empty _ _ | aside => []

def contentText (content : List Node) : List Char := content.flatMap ownText

/-- The value of an element, given what is named in it and its text. -/
def elementValue (pairs : List (String × Value)) (content : List Char) : Value :=
  if pairs = [] then .text (String.ofList (Text.trimChars content))
  else if Text.trimChars content = [] then .object (group pairs)
  else .object (group pairs ++ [("", .text (String.ofList (Text.trimChars content)))])

mutual

def child? : Node → Option (String × Value)
  | element tag _ content =>
    some (tag.localText, elementValue (tag.pairs ++ childPairs content) (contentText content))
  | empty tag _ => some (tag.localText, elementValue tag.pairs [])
  | text _ | data _ | aside => none

def childPairs : List Node → List (String × Value)
  | [] => []
  | n :: rest => n.child?.toList ++ childPairs rest

end

theorem isArray_elementValue (pairs : List (String × Value)) (content : List Char) :
    (elementValue pairs content).isArray = false := by
  unfold elementValue
  split_ifs <;> rfl

theorem of_child? {n : Node} {pair : String × Value} (told : n.child? = some pair) :
    pair.1 ≠ "" ∧ pair.2.isArray = false := by
  cases n with
  | element tag named content =>
    rw [child?] at told
    cases told
    exact ⟨by simpa [SpeltTag.localText] using named, isArray_elementValue _ _⟩
  | empty tag named =>
    rw [child?] at told
    cases told
    exact ⟨by simpa [SpeltTag.localText] using named, isArray_elementValue _ _⟩
  | text _ | data _ | aside =>
    rw [child?] at told
    exact absurd told nofun

theorem of_mem_childPairs {content : List Node} {pair : String × Value}
    (mem : pair ∈ childPairs content) : pair.1 ≠ "" ∧ pair.2.isArray = false := by
  induction content with
  | nil => simp [childPairs] at mem
  | cons n rest ih =>
    rw [childPairs, List.mem_append, Option.mem_toList] at mem
    exact mem.elim of_child? ih

end Node

theorem putEntry_of_fresh {key : String} {entries : List (String × Value)}
    (fresh : ∀ entry ∈ entries, entry.1 ≠ key) (v : Value) :
    Value.putEntry key v entries = entries ++ [(key, v)] := by
  induction entries with
  | nil => rfl
  | cons entry rest ih =>
    obtain ⟨name, w⟩ := entry
    have ne : name ≠ key := fresh (name, w) (List.mem_cons_self ..)
    rw [Value.putEntry, if_neg ne, ih fun entry mem => fresh entry (List.mem_cons_of_mem _ mem)]
    rfl

theorem value_eq_elementValue {pairs : List (String × Value)}
    (plain : ∀ pair ∈ pairs, pair.1 ≠ "" ∧ pair.2.isArray = false) (name : String)
    (content : List Char) :
    Frame.value ⟨name, addAll [] pairs, content⟩ = Node.elementValue pairs content := by
  have fresh : ∀ entry ∈ group pairs, entry.1 ≠ "" := by
    intro entry mem
    obtain ⟨w, held⟩ := mem_of_mem_group mem
    exact (plain _ held).1
  have text : String.ofList (Text.trimChars content) = "" ↔ Text.trimChars content = [] := by
    rw [← String.toList_inj, String.toList_ofList, String.toList_empty]
  rw [addAll_eq_group fun pair mem => (plain pair mem).2]
  simp only [Frame.value, Node.elementValue, putEntry_of_fresh fresh, List.isEmpty_iff,
    group_eq_nil_iff, text]

namespace Progress

def steps (p : Progress) (events : List Event) : Except Error Progress := events.foldlM step p

theorem steps_cons (p : Progress) (e : Event) (rest : List Event) :
    p.steps (e :: rest) = p.step e >>= fun next => next.steps rest := rfl

theorem steps_append (p : Progress) (events more : List Event) :
    p.steps (events ++ more) = p.steps events >>= fun next => next.steps more :=
  List.foldlM_append

theorem run_append (length : Nat) (p : Progress) (events : List Event)
    (rest : List (Except Fault Event)) :
    p.run length (events.map .ok ++ rest) =
      p.steps events >>= fun next => next.run length rest := by
  induction events generalizing p with
  | nil => rfl
  | cons e events ih =>
    rw [List.map_cons, List.cons_append, run, steps_cons]
    cases p.step e with
    | error _ => rfl
    | ok next => exact ih next

def inside (f : Frame) (content : List Node) (outer : List Frame) (root : Option Value) :
    Progress :=
  ⟨⟨f.name, addAll f.entries (Node.childPairs content), f.text ++ Node.contentText content⟩
    :: outer, root⟩

theorem inside_nil (f : Frame) (outer : List Frame) (root : Option Value) :
    inside f [] outer root = ⟨f :: outer, root⟩ := by
  simp [inside, Node.childPairs, Node.contentText, addAll]

theorem inside_singleton (f : Frame) (n : Node) (outer : List Frame) (root : Option Value) :
    inside f [n] outer root =
      ⟨⟨f.name, addAll f.entries n.child?.toList, f.text ++ n.ownText⟩ :: outer, root⟩ := by
  simp [inside, Node.childPairs, Node.contentText]

theorem steps_start (t : SpeltTag) (frames : List Frame) (root : Option Value)
    (rest : List Event) : steps ⟨frames, root⟩ (.start t.tag :: rest) =
      steps ⟨⟨t.localText, addAll [] t.pairs, []⟩ :: frames, root⟩ rest := by
  change (Frame.ofTag t.tag >>= fun f => _) >>= _ = _
  rw [t.ofTag_tag]
  rfl

def closing (t : SpeltTag) (content : List Node) : Frame :=
  ⟨t.localText, addAll [] (t.pairs ++ Node.childPairs content), Node.contentText content⟩

theorem value_closing (t : SpeltTag) (content : List Node) : (closing t content).value =
    Node.elementValue (t.pairs ++ Node.childPairs content) (Node.contentText content) := by
  refine value_eq_elementValue (fun pair mem => ?_) _ _
  exact (List.mem_append.1 mem).elim t.of_mem_pairs Node.of_mem_childPairs

theorem step_empty (t : SpeltTag) (frames : List Frame) (root : Option Value) :
    step ⟨frames, root⟩ (.empty t.tag) = close (closing t []) frames root := by
  change Frame.ofTag t.tag >>= _ = _
  rw [t.ofTag_tag, closing, Node.childPairs, List.append_nil]
  rfl

theorem step_text (t : EscapedText) (f : Frame) (outer : List Frame) (root : Option Value) :
    step ⟨f :: outer, root⟩ (.text t.written) =
      .ok ⟨⟨f.name, f.entries, f.text ++ t.meant⟩ :: outer, root⟩ := by
  simp only [step, List.isEmpty_cons, Bool.false_eq_true, if_false, t.replace_written]
  rfl

theorem steps_element_of_content (t : SpeltTag) (content : List Node) (outer : List Frame)
    (root : Option Value)
    (inner : steps ⟨⟨t.localText, addAll [] t.pairs, []⟩ :: outer, root⟩
      (Node.contentEvents content) =
        .ok (inside ⟨t.localText, addAll [] t.pairs, []⟩ content outer root)) :
    steps ⟨outer, root⟩ (.start t.tag :: (Node.contentEvents content ++ [.close t.name])) =
      close (closing t content) outer root := by
  rw [steps_start, steps_append, inner]
  change step (inside _ content outer root) (.close t.name) >>= pure = _
  rw [bind_pure, closing, addAll_append]
  rfl

theorem close_into (inner f : Frame) (outer : List Frame) (root : Option Value) :
    close inner (f :: outer) root =
      .ok ⟨⟨f.name, addAll f.entries [(inner.name, inner.value)], f.text⟩ :: outer, root⟩ := rfl

-- Both are told under any frames around, so that they hold again one element deeper.
mutual

theorem steps_events (outer : List Frame) (root : Option Value) (f : Frame) : (n : Node) →
    steps ⟨f :: outer, root⟩ n.events = .ok (inside f [n] outer root)
  | .element tag named content => by
    rw [Node.events, steps_element_of_content tag content (f :: outer) root
      (steps_contentEvents (f :: outer) root _ content), close_into, value_closing,
      inside_singleton, Node.child?, Node.ownText, List.append_nil]
    rfl
  | .empty tag named => by
    change step _ (.empty tag.tag) >>= pure = _
    rw [bind_pure, step_empty, close_into, value_closing, inside_singleton, Node.child?,
      Node.ownText, Node.childPairs, List.append_nil, List.append_nil]
    rfl
  | .text t => by
    change step _ (.text t.written) >>= pure = _
    rw [bind_pure, step_text, inside_singleton, Node.child?]
    rfl
  | .data content => by
    rw [inside_singleton, Node.child?]
    rfl
  | .aside => by
    rw [inside_singleton, Node.child?, Node.ownText, List.append_nil]
    rfl

theorem steps_contentEvents (outer : List Frame) (root : Option Value) (f : Frame) :
    (content : List Node) →
      steps ⟨f :: outer, root⟩ (Node.contentEvents content) = .ok (inside f content outer root)
  | [] => by
    rw [inside_nil, Node.contentEvents]
    rfl
  | n :: rest => by
    have later := steps_contentEvents outer root
      ⟨f.name, addAll f.entries (Node.childPairs [n]), f.text ++ Node.contentText [n]⟩ rest
    rw [Node.contentEvents, steps_append, steps_events outer root f n]
    change steps (inside f [n] outer root) _ = _
    rw [inside, later]
    simp [inside, Node.childPairs, Node.contentText, addAll_append]

end

theorem steps_element (t : SpeltTag) (content : List Node) (outer : List Frame)
    (root : Option Value) :
    steps ⟨outer, root⟩ (.start t.tag :: (Node.contentEvents content ++ [.close t.name])) =
      close (closing t content) outer root :=
  steps_element_of_content t content outer root (steps_contentEvents outer root _ content)

end Progress

def Event.isFiller : Event → Bool
  | .text _ | .data _ | .aside => true
  | .start _ | .empty _ | .close _ => false

def rootValue : Value → Value
  | .text s => if s = "" then .object [] else .text s
  | v => v

namespace Progress

theorem steps_filler (root : Option Value) {events : List Event}
    (filler : ∀ e ∈ events, e.isFiller = true) :
    steps ⟨[], root⟩ events = .ok ⟨[], root⟩ := by
  induction events with
  | nil => rfl
  | cons e rest ih =>
    have later := ih fun e mem => filler e (List.mem_cons_of_mem _ mem)
    have here : e.isFiller = true := filler e (List.mem_cons_self ..)
    rw [steps_cons]
    cases e with
    | text _ | data _ | aside => exact later
    | start _ | empty _ | close _ => exact absurd here Bool.false_ne_true

theorem finish_root (v : Value) : finish ⟨[], some v⟩ = .ok (rootValue v) := by
  cases v <;> rfl

theorem run_of_steps_root {events : List Event} {f : Frame}
    (closed : steps ⟨[], none⟩ events = close f [] none) {before after : List Event}
    (filler : ∀ e ∈ before ++ after, e.isFiller = true) (length : Nat) :
    start.run length ((before ++ events ++ after).map .ok) = .ok (rootValue f.value) := by
  have front := steps_filler none fun e mem => filler e (List.mem_append_left _ mem)
  have back := steps_filler (some f.value) fun e mem => filler e (List.mem_append_right _ mem)
  have whole : steps start (before ++ events ++ after) = .ok ⟨[], some f.value⟩ := by
    rw [steps_append, steps_append, start, front]
    change (steps ⟨[], none⟩ events >>= _) = _
    rw [closed]
    exact back
  rw [← List.append_nil (List.map _ _), run_append, whole]
  exact finish_root f.value

end Progress

theorem steps_root {root : Node} {name : String} {v : Value}
    (element : root.child? = some (name, v)) :
    ∃ f : Frame, f.value = v ∧
      Progress.steps ⟨[], none⟩ root.events = Progress.close f [] none := by
  cases root with
  | element tag named content =>
    refine ⟨Progress.closing tag content, ?_, ?_⟩
    · rw [Node.child?] at element
      cases element
      exact Progress.value_closing tag content
    · rw [Node.events, Progress.steps_element]
  | empty tag named =>
    refine ⟨Progress.closing tag [], ?_, ?_⟩
    · rw [Node.child?] at element
      cases element
      rw [Progress.value_closing, Node.childPairs, List.append_nil]
      rfl
    · rw [Node.events, ← Progress.step_empty]
      exact bind_pure _
  | text _ | data _ | aside =>
    rw [Node.child?] at element
    exact absurd element nofun

/-- The value of an XML document, for every element tree and all that may stand around
its root. A text whose events these are is parsed to the same value. -/
theorem value_of_element_tree {root : Node} {name : String} {v : Value}
    (element : root.child? = some (name, v)) {before after : List Event}
    (filler : ∀ e ∈ before ++ after, e.isFiller = true) :
    (∀ length, Progress.start.run length ((before ++ root.events ++ after).map .ok) =
      .ok (rootValue v)) ∧
    (∀ text, Event.read (skipMark text.toList) = (before ++ root.events ++ after).map .ok →
      Document.parse .xml text = .ok ⟨rootValue v, some text⟩) ∧
    ∀ tag named, (Node.empty tag named).child? = (Node.element tag named []).child? := by
  obtain ⟨f, rfl, closed⟩ := steps_root element
  have ran := Progress.run_of_steps_root closed filler
  refine ⟨ran, fun text delivered => ?_, fun tag named => ?_⟩
  · have read : Xml.read text = .ok (rootValue f.value) := by
      rw [Xml.read, delivered]
      exact ran _
    rw [Document.parse, read]
    rfl
  · rw [Node.child?, Node.child?, Node.childPairs, List.append_nil]
    rfl

/-- `<p:a xmlns="u" id = '1&amp;2'>x<b/><b>y</b><![CDATA[z ]]></p:a>` -/
def mixedElement : Node :=
  .element
    ⟨"p:a".toList,
      [⟨[' '], "xmlns".toList, [], [], '"', "u".toList, "u".toList, by decide,
          Text.forall_of_all rfl, Text.forall_of_all rfl, by decide, SpeltTag.blank_nil,
          SpeltTag.blank_nil, .inl rfl, by decide, by decide⟩,
        ⟨[' '], "id".toList, [' '], [' '], '\'', "1&amp;2".toList, "1&2".toList, by decide,
          Text.forall_of_all rfl, Text.forall_of_all rfl, by decide, Text.forall_of_all rfl,
          Text.forall_of_all rfl, .inr rfl, by decide, by decide⟩],
      [], Text.forall_of_all rfl, by decide, SpeltTag.blank_nil⟩
    (by decide)
    [.text ⟨['x'], ['x'], by decide⟩, .empty (.bare ['b'] (Text.forall_of_all rfl)) (by decide),
      .element (.bare ['b'] (Text.forall_of_all rfl)) (by decide)
        [.text ⟨['y'], ['y'], by decide⟩],
      .data ['z', ' ']]

theorem value_of_element_tree_on_mixed :
    mixedElement.child? = some ("a", .object [("id", .text "1&2"),
      ("b", .array [.text "", .text "y"]), ("", .text "xz")]) ∧
    Document.parse .xml
        "<?xml?><p:a xmlns=\"u\" id = '1&amp;2'>x<b/><b>y</b><![CDATA[z ]]></p:a>" =
      .ok ⟨.object [("id", .text "1&2"), ("b", .array [.text "", .text "y"]), ("", .text "xz")],
        some "<?xml?><p:a xmlns=\"u\" id = '1&amp;2'>x<b/><b>y</b><![CDATA[z ]]></p:a>"⟩ := by
  have grouped : group [("id", .text "1&2"), ("b", .text ""), ("b", .text "y")] =
      [("id", .text "1&2"), ("b", .array [.text "", .text "y"])] := by
    simp [group, valuesOf, without, gather]
  have element : mixedElement.child? = some ("a", .object [("id", .text "1&2"),
      ("b", .array [.text "", .text "y"]), ("", .text "xz")]) := by
    change some ("a", Node.elementValue [("id", .text "1&2"), ("b", .text ""), ("b", .text "y")]
      ['x', 'z', ' ']) = _
    rw [Node.elementValue, grouped]
    rfl
  have filler : ∀ e ∈ [Event.aside] ++ [], e.isFiller = true := by decide
  exact ⟨element, (value_of_element_tree element filler).2.1 _ (by decide)⟩

end DescriptorCheck.Xml
