import DescriptorCheck.Proofs.Json.Writing

set_option autoImplicit false

namespace DescriptorCheck

namespace Json

theorem mem_separated {α : Type} {part : α → List Char} {x : α} {xs : List α} {c : Char}
    (mem : c ∈ part x ++ xs.flatMap fun y => ',' :: part y) :
    c = ',' ∨ ∃ y ∈ x :: xs, c ∈ part y := by
  simp only [List.mem_append, List.mem_flatMap, List.mem_cons] at mem ⊢
  rcases mem with first | ⟨y, held, rfl | behind⟩
  · exact .inr ⟨x, .inl rfl, first⟩
  · exact .inl rfl
  · exact .inr ⟨y, .inr held, behind⟩

theorem mem_encodeItems {items : List Value} {c : Char} (mem : c ∈ encodeItems items) :
    c = ',' ∨ ∃ v ∈ items, c ∈ encode v := by
  cases items with
  | nil => cases mem
  | cons v items =>
    rw [encodeItems_cons] at mem
    exact mem_separated mem

theorem mem_encodeEntries {entries : List (String × Value)} {c : Char}
    (mem : c ∈ encodeEntries entries) : c = ',' ∨ ∃ e ∈ entries, c ∈ encodeEntry e := by
  cases entries with
  | nil => cases mem
  | cons e entries =>
    rw [encodeEntries_cons] at mem
    exact mem_separated mem

theorem not_lt_space_of_mem_quoted {s : String} {c : Char} (mem : c ∈ Quoted.encode s) :
    ¬c < ' ' := by
  simp only [Quoted.encode, List.cons_append, List.mem_cons, List.mem_append, List.mem_flatMap,
    List.not_mem_nil, or_false] at mem
  rcases mem with rfl | ⟨d, -, mem⟩ | rfl
  · decide
  · exact Quoted.not_lt_space_of_mem_encodeChar mem
  · decide

theorem not_lt_space_of_mem_integer {i : Int64} {c : Char}
    (mem : c ∈ (encodeNumber (.integer i)).toList) : ¬c < ' ' := by
  rw [toList_encodeNumber_integer, List.mem_append] at mem
  rcases mem with sign | digit
  · split at sign
    · rw [List.mem_singleton.1 sign]
      decide
    · cases sign
  · intro (control : c.toNat < 32)
    have bounds := Char.isDigit_iff_toNat.1 (Number.isDigit_of_mem_naturalDigits digit)
    simp only [Char.reduceToNat] at bounds
    omega

theorem not_lt_space_of_mem_encode {v : Value} (floatless : v.hasFloat = false) {c : Char}
    (mem : c ∈ encode v) : ¬c < ' ' := by
  induction v using Value.induction_on_children with
  | step v ih =>
    cases v with
    | object entries =>
      rw [Value.hasFloat, Value.entriesHaveFloat_eq_false_iff] at floatless
      simp only [encode, List.cons_append, List.mem_cons, List.mem_append, List.not_mem_nil,
        or_false] at mem
      rcases mem with rfl | mem | rfl
      · decide
      · rcases mem_encodeEntries mem with rfl | ⟨e, held, mem⟩
        · decide
        · simp only [encodeEntry, List.mem_append, List.mem_cons] at mem
          rcases mem with mem | rfl | mem
          · exact not_lt_space_of_mem_quoted mem
          · decide
          · exact ih (.key e.1) e.2 (List.mem_map_of_mem held) (floatless e held) mem
      · decide
    | array items =>
      rw [Value.hasFloat, Value.itemsHaveFloat_eq_false_iff] at floatless
      simp only [encode, List.cons_append, List.mem_cons, List.mem_append, List.not_mem_nil,
        or_false] at mem
      rcases mem with rfl | mem | rfl
      · decide
      · rcases mem_encodeItems mem with rfl | ⟨w, held, mem⟩
        · decide
        · obtain ⟨i, bound, rfl⟩ := List.getElem_of_mem held
          have child : (.index i, items[i]) ∈ (Value.array items).children :=
            Value.mem_children_of_child? (List.getElem?_eq_getElem bound)
          exact ih (.index i) items[i] child (floatless _ held) mem
      · decide
    | text s => exact not_lt_space_of_mem_quoted mem
    | number n =>
      cases n with
      | float x => cases floatless
      | integer i => exact not_lt_space_of_mem_integer mem
    | boolean b =>
      have letters : (encode (.boolean b)).all (fun c => ¬c < ' ') = true := by
        cases b <;> decide
      exact of_decide_eq_true (List.all_eq_true.1 letters c mem)
    | null =>
      have letters : (encode .null).all (fun c => ¬c < ' ') = true := by decide
      exact of_decide_eq_true (List.all_eq_true.1 letters c mem)

theorem readAll_encode {v : Value} (distinct : v.DistinctKeys) (floatless : v.hasFloat = false)
    (w : Value) : readAll (encode v) = .ok w ↔ v.nesting < depthLimit ∧ w = v := by
  have back := readsBack_readValue distinct floatless depthLimit [] nofun
  rw [List.append_nil] at back
  rw [readAll, bind_eq_ok_iff]
  constructor
  · rintro ⟨⟨u, rest⟩, read, done⟩
    obtain ⟨nested, same⟩ := (back _).1 read
    cases same
    exact ⟨nested, (Except.ok.inj done).symm⟩
  · rintro ⟨nested, rfl⟩
    exact ⟨(w, []), (back _).2 ⟨nested, rfl⟩, rfl⟩

theorem parse_ofList_encode {v : Value} (distinct : v.DistinctKeys) (floatless : v.hasFloat = false)
    (d : Document) : Document.parse .json (String.ofList (encode v)) = .ok d ↔
      v.nesting < depthLimit ∧ d = ⟨v, some (String.ofList (encode v))⟩ := by
  have read := readAll_encode distinct floatless
  simp only [Document.parse, Json.read, String.toList_ofList, bind_eq_ok_iff]
  constructor
  · rintro ⟨root, mapped, done⟩
    obtain ⟨nested, rfl⟩ := (read root).1 (ok_of_mapError (ok_of_mapError mapped))
    exact ⟨nested, (Except.ok.inj done).symm⟩
  · rintro ⟨nested, rfl⟩
    refine ⟨v, ?_, rfl⟩
    rw [(read v).2 ⟨nested, rfl⟩]
    rfl

def lineObject (e : Element) : Value := .object [("path", .text e.path), ("value", e.value)]

/-- The line of an element is one line, and it reads back as the object of the path and
the value if and only if this object keeps to the limit of nesting. -/
theorem element_lines_read_back {root : Value} {e : Element} (distinct : root.DistinctKeys)
    (listed : e ∈ root.flatten) (floatless : e.value.hasFloat = false) :
    (∀ c ∈ (elementLine e).toList, ¬c < ' ') ∧
    ∀ d, Document.parse .json (elementLine e) = .ok d ↔ e.value.nesting + 1 < depthLimit ∧
      d = ⟨.object [("path", .text e.path), ("value", e.value)], some (elementLine e)⟩ := by
  have kept : e.value.DistinctKeys := by
    rw [← Value.map_snd_placed] at listed
    obtain ⟨⟨p, e⟩, mem, rfl⟩ := List.mem_map.1 listed
    exact distinct.of_at? (Value.at?_of_mem_placed distinct mem)
  have line_distinct : (lineObject e).DistinctKeys := by
    simp [lineObject, Value.distinctKeys_object_iff, kept, Value.DistinctKeys]
  have line_floatless : (lineObject e).hasFloat = false := by
    simp [lineObject, Value.hasFloat, Value.entriesHaveFloat, floatless]
  have line_nesting : (lineObject e).nesting = e.value.nesting + 1 := by
    simp [lineObject, Value.nesting, Value.entriesNesting]
  constructor
  · intro c mem
    rw [elementLine, String.toList_ofList] at mem
    exact not_lt_space_of_mem_encode line_floatless mem
  · intro d
    rw [← line_nesting]
    exact parse_ofList_encode line_distinct line_floatless d

theorem element_lines_read_back_on_nested_value :
    let v := Value.object [("b\n", .array [.text "\"\x01", .number (.integer (-7)), .null]),
      ("a", .boolean true)]
    let root := Value.object [("k", v)]
    let e : Element := ⟨"k", v⟩
    root.DistinctKeys ∧ e ∈ root.flatten ∧ e.value.hasFloat = false ∧
      Document.parse .json (elementLine e) =
        .ok ⟨.object [("path", .text "k"), ("value", v)], some (elementLine e)⟩ := by
  intro v root e
  have distinct : root.DistinctKeys := by
    simp [root, v, Value.DistinctKeys, Value.EntriesDistinct, Value.ItemsDistinct]
  have listed : e ∈ root.flatten := List.mem_cons_self
  have floatless : e.value.hasFloat = false := rfl
  obtain ⟨-, reads⟩ := element_lines_read_back distinct listed floatless
  exact ⟨distinct, listed, floatless, (reads _).2 ⟨by decide, rfl⟩⟩

end Json

end DescriptorCheck
