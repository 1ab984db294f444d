import DescriptorCheck.Proofs.Document.Keys
import DescriptorCheck.Proofs.Json.Escaping
import DescriptorCheck.Proofs.Json.Integers
import DescriptorCheck.Proofs.Path.Preorder

set_option autoImplicit false

namespace DescriptorCheck

namespace Value

mutual

def nesting : Value → Nat
  | object entries => entriesNesting entries + 1
  | array items => itemsNesting items + 1
  | _ => 0

def entriesNesting : List (String × Value) → Nat
  | [] => 0
  | (_, v) :: rest => max v.nesting (entriesNesting rest)

def itemsNesting : List Value → Nat
  | [] => 0
  | v :: rest => max v.nesting (itemsNesting rest)

end

mutual

def hasFloat : Value → Bool
  | object entries => entriesHaveFloat entries
  | array items => itemsHaveFloat items
  | number (.float _) => true
  | _ => false

def entriesHaveFloat : List (String × Value) → Bool
  | [] => false
  | (_, v) :: rest => v.hasFloat || entriesHaveFloat rest

def itemsHaveFloat : List Value → Bool
  | [] => false
  | v :: rest => v.hasFloat || itemsHaveFloat rest

end

theorem entriesNesting_lt_iff {depth : Nat} (entries : List (String × Value)) :
    entriesNesting entries < depth ↔ 0 < depth ∧ ∀ entry ∈ entries, entry.2.nesting < depth := by
  induction entries with
  | nil => simp [entriesNesting]
  | cons entry rest ih =>
    rw [entriesNesting, Nat.max_lt, ih, List.forall_mem_cons]
    tauto

theorem itemsNesting_lt_iff {depth : Nat} (items : List Value) :
    itemsNesting items < depth ↔ 0 < depth ∧ ∀ v ∈ items, v.nesting < depth := by
  induction items with
  | nil => simp [itemsNesting]
  | cons v rest ih =>
    rw [itemsNesting, Nat.max_lt, ih, List.forall_mem_cons]
    tauto

theorem entriesHaveFloat_eq_false_iff (entries : List (String × Value)) :
    entriesHaveFloat entries = false ↔ ∀ entry ∈ entries, entry.2.hasFloat = false := by
  induction entries with
  | nil => simp [entriesHaveFloat]
  | cons entry rest ih => simp [entriesHaveFloat, ih]

theorem itemsHaveFloat_eq_false_iff (items : List Value) :
    itemsHaveFloat items = false ↔ ∀ v ∈ items, v.hasFloat = false := by
  induction items with
  | nil => simp [itemsHaveFloat]
  | cons v rest ih => simp [itemsHaveFloat, ih]

end Value

namespace Json

/-- A character that starts what is written for a value. -/
def Starts (c : Char) : Prop := isBlank c = false ∧ c ≠ ']' ∧ c ≠ ','

instance (c : Char) : Decidable (Starts c) :=
  inferInstanceAs (Decidable (isBlank c = false ∧ c ≠ ']' ∧ c ≠ ','))

theorem starts_of_isDigit {c : Char} (digit : c.isDigit = true) : Starts c := by
  have bounds := Char.isDigit_iff_toNat.1 digit
  have differs {d : Char} (other : d.isDigit = false) : c ≠ d := by
    rintro rfl
    rw [digit] at other
    cases other
  refine ⟨?_, differs rfl, differs rfl⟩
  simp [isBlank, differs]

theorem exists_encode {v : Value} (floatless : v.hasFloat = false) :
    ∃ c cs, encode v = c :: cs ∧ Starts c := by
  cases v with
  | object entries => exact ⟨_, _, by rw [encode, List.cons_append], by decide⟩
  | array items => exact ⟨_, _, by rw [encode, List.cons_append], by decide⟩
  | text s => exact ⟨_, _, by rw [encode, Quoted.encode, List.cons_append], by decide⟩
  | number n =>
    cases n with
    | float x => cases floatless
    | integer i =>
      rw [encode, toList_encodeNumber_integer]
      split
      · exact ⟨_, _, rfl, by decide⟩
      · obtain ⟨c, cs, digits, digit⟩ := Number.exists_digit i.toInt.natAbs
        exact ⟨c, cs, digits, starts_of_isDigit digit⟩
  | boolean b => cases b <;> exact ⟨_, _, rfl, by decide⟩
  | null => exact ⟨_, _, rfl, by decide⟩

theorem skipBlanks_cons {c : Char} (solid : isBlank c = false) (cs : List Char) :
    skipBlanks (c :: cs) = c :: cs := List.dropWhile_cons_of_neg (by simp [solid])

theorem encodeItems_cons (v : Value) (items : List Value) :
    encodeItems (v :: items) = encode v ++ items.flatMap fun w => ',' :: encode w := by
  induction items generalizing v with
  | nil => simp [encodeItems]
  | cons w rest ih =>
    rw [encodeItems, ih, List.flatMap_cons]
    · simp
    · simp

def encodeEntry (e : String × Value) : List Char := Quoted.encode e.1 ++ ':' :: encode e.2

theorem encodeEntries_cons (e : String × Value) (entries : List (String × Value)) :
    encodeEntries (e :: entries) =
      encodeEntry e ++ entries.flatMap fun f => ',' :: encodeEntry f := by
  induction entries generalizing e with
  | nil =>
    obtain ⟨key, v⟩ := e
    simp [encodeEntries, encodeEntry]
  | cons f rest ih =>
    obtain ⟨key, v⟩ := e
    rw [encodeEntries, ih, List.flatMap_cons]
    · simp [encodeEntry]
    · simp

/-- What is written for a value is read as the value, if it is nested less than `depth`
deep, and is refused if not. -/
def ReadsBack (item : Reader Value) (depth : Nat) (v : Value) : Prop :=
  ∀ rest, (∀ c ∈ rest.head?, Numeral.isFigure c = false) → ∀ result,
    item (encode v ++ rest) = .ok result ↔ v.nesting < depth ∧ result = (v, rest)

section Containers

variable {item : Reader Value} {depth : Nat}

theorem bind_whole_iff {α β : Type} (whole : α → β) {inner : Except Stop (α × List Char)} {a : α}
    {rest : List Char} {P : Prop} (here : ∀ result, inner = .ok result ↔ P ∧ result = (a, rest))
    (result : β × List Char) :
    (do
      let (a, rest) ← inner
      .ok (whole a, rest)) = .ok result ↔ P ∧ result = (whole a, rest) := by
  simp only [bind_eq_ok_iff, Prod.exists, here]
  constructor
  · rintro ⟨a', rest', ⟨p, same⟩, done⟩
    cases same
    exact ⟨p, (Except.ok.inj done).symm⟩
  · rintro ⟨p, rfl⟩
    exact ⟨a, rest, ⟨p, rfl⟩, rfl⟩

theorem bind_parts_iff {α β : Type} (part : α → β) {first : Except Stop (α × List Char)}
    {others : Reader (List β)} {a : α} {parts : List β} {behind rest : List Char} {P Q : Prop}
    (here : ∀ result, first = .ok result ↔ P ∧ result = (a, behind))
    (further : ∀ result, others behind = .ok result ↔ Q ∧ result = (parts, rest))
    (result : List β × List Char) :
    (do
      let (a, behind) ← first
      let (parts, rest) ← others behind
      .ok (part a :: parts, rest)) = .ok result ↔ (P ∧ Q) ∧ result = (part a :: parts, rest) := by
  simp only [bind_eq_ok_iff, Prod.exists, here]
  constructor
  · rintro ⟨a', behind', ⟨p, same⟩, parts', rest', others_read, done⟩
    cases same
    obtain ⟨q, same⟩ := (further _).1 others_read
    cases same
    exact ⟨⟨p, q⟩, (Except.ok.inj done).symm⟩
  · rintro ⟨⟨p, q⟩, rfl⟩
    exact ⟨a, behind, ⟨p, rfl⟩, parts, rest, (further _).2 ⟨q, rfl⟩, rfl⟩

theorem readItems_first {c : Char} (start : Starts c) (count : Nat) (cs : List Char) :
    readItems item true (count + 1) (c :: cs) = (do
      let (v, rest) ← item (c :: cs)
      let (vs, rest) ← readItems item false count rest
      .ok (v :: vs, rest)) := by
  obtain ⟨solid, bracket, comma⟩ := start
  rw [readItems, skipBlanks_cons solid]
  split
  · contradiction
  · rename_i same
    exact absurd (List.cons.inj same).1 bracket
  · rename_i same
    exact absurd (List.cons.inj same).1 comma
  · rfl

theorem readItems_comma {c : Char} (start : Starts c) (count : Nat) (cs : List Char) :
    readItems item false (count + 1) (',' :: c :: cs) = (do
      let (v, rest) ← item (c :: cs)
      let (vs, rest) ← readItems item false count rest
      .ok (v :: vs, rest)) := by
  obtain ⟨solid, bracket, -⟩ := start
  rw [readItems, skipBlanks_cons (by decide)]
  simp only [Bool.false_eq_true, if_false, skipBlanks_cons solid]
  split
  · contradiction
  · rename_i same
    exact absurd (List.cons.inj same).1 bracket
  · rfl

theorem ends_parts {close : Char} {parts rest : List Char}
    (closed : Numeral.isFigure close = false) (separated : ∀ c ∈ parts.head?, c = ',') :
    ∀ c ∈ (parts ++ close :: rest).head?, Numeral.isFigure c = false := by
  cases parts with
  | nil => simpa using closed
  | cons d parts =>
    obtain rfl := separated d rfl
    simp only [List.cons_append, List.head?_cons, Option.mem_some_iff, forall_eq']
    decide

theorem ends_item (vs : List Value) (rest : List Char) :
    ∀ c ∈ ((vs.flatMap fun v => ',' :: encode v) ++ ']' :: rest).head?,
      Numeral.isFigure c = false := by
  apply ends_parts (by decide)
  cases vs <;> simp

theorem readItems_rest {vs : List Value} (back : ∀ v ∈ vs, ReadsBack item depth v)
    (floatless : ∀ v ∈ vs, v.hasFloat = false) {count : Nat} (enough : vs.length < count)
    (rest : List Char) (result : List Value × List Char) :
    readItems item false count ((vs.flatMap fun v => ',' :: encode v) ++ ']' :: rest) =
        .ok result ↔ (∀ v ∈ vs, v.nesting < depth) ∧ result = (vs, rest) := by
  induction vs generalizing count result with
  | nil =>
    cases count with
    | zero => omega
    | succ count =>
      have closed : readItems item false (count + 1) (']' :: rest) = .ok ([], rest) := rfl
      simp [closed, eq_comm]
  | cons v vs ih =>
    cases count with
    | zero => omega
    | succ count =>
      obtain ⟨c, cs, written, start⟩ := exists_encode (floatless v List.mem_cons_self)
      have first := back v List.mem_cons_self _ (ends_item vs rest)
      have others := ih (fun w mem => back w (List.mem_cons_of_mem v mem))
        (fun w mem => floatless w (List.mem_cons_of_mem v mem)) (Nat.lt_of_succ_lt_succ enough)
      simp only [List.flatMap_cons, List.cons_append, List.append_assoc]
      rw [written] at first ⊢
      rw [List.cons_append] at first ⊢
      rw [readItems_comma start, List.forall_mem_cons]
      exact bind_parts_iff id first others result

theorem readItems_encode {vs : List Value} (back : ∀ v ∈ vs, ReadsBack item depth v)
    (floatless : ∀ v ∈ vs, v.hasFloat = false) {count : Nat} (enough : vs.length < count)
    (rest : List Char) (result : List Value × List Char) :
    readItems item true count (encodeItems vs ++ ']' :: rest) = .ok result ↔
      (∀ v ∈ vs, v.nesting < depth) ∧ result = (vs, rest) := by
  cases count with
  | zero => omega
  | succ count =>
    cases vs with
    | nil =>
      have closed : readItems item true (count + 1) (']' :: rest) = .ok ([], rest) := rfl
      simp [encodeItems, closed, eq_comm]
    | cons v vs =>
      obtain ⟨c, cs, written, start⟩ := exists_encode (floatless v List.mem_cons_self)
      have first := back v List.mem_cons_self _ (ends_item vs rest)
      have others := readItems_rest (fun w mem => back w (List.mem_cons_of_mem v mem))
        (fun w mem => floatless w (List.mem_cons_of_mem v mem)) (Nat.lt_of_succ_lt_succ enough) rest
      rw [encodeItems_cons, List.append_assoc]
      rw [written, List.cons_append] at first ⊢
      rw [readItems_first start, List.forall_mem_cons]
      exact bind_parts_iff id first others result

theorem readColon_colon (cs : List Char) : readColon item (':' :: cs) = item cs := by
  rw [readColon, skipBlanks_cons (by decide)]
  rfl

theorem readEntries_first (count : Nat) (cs : List Char) :
    readEntries item true (count + 1) ('"' :: cs) = (do
      let (key, rest) ← Quoted.read cs
      let (v, rest) ← readColon item rest
      let (entries, rest) ← readEntries item false count rest
      .ok ((key, v) :: entries, rest)) := by
  rw [readEntries, skipBlanks_cons (by decide)]
  rfl

theorem readEntries_comma (count : Nat) (cs : List Char) :
    readEntries item false (count + 1) (',' :: '"' :: cs) = (do
      let (key, rest) ← Quoted.read cs
      let (v, rest) ← readColon item rest
      let (entries, rest) ← readEntries item false count rest
      .ok ((key, v) :: entries, rest)) := by
  rw [readEntries, skipBlanks_cons (by decide)]
  simp only [Bool.false_eq_true, if_false, skipBlanks_cons (show isBlank '"' = false by decide)]

theorem encodeEntry_append (e : String × Value) (behind : List Char) :
    encodeEntry e ++ behind =
      '"' :: (e.1.toList.flatMap Quoted.encodeChar ++ '"' :: ':' :: (encode e.2 ++ behind)) := by
  simp [encodeEntry, Quoted.encode]

theorem ends_entry (es : List (String × Value)) (rest : List Char) :
    ∀ c ∈ ((es.flatMap fun e => ',' :: encodeEntry e) ++ '\x7d' :: rest).head?,
      Numeral.isFigure c = false := by
  apply ends_parts (by decide)
  cases es <;> simp

theorem readEntry_iff {e : String × Value} {others : Reader (List (String × Value))}
    {entries : List (String × Value)} {behind rest : List Char} {Q : Prop}
    (back : ReadsBack item depth e.2)
    (ends : ∀ c ∈ behind.head?, Numeral.isFigure c = false)
    (further : ∀ result, others behind = .ok result ↔ Q ∧ result = (entries, rest))
    (result : List (String × Value) × List Char) :
    (do
      let (key, rest) ← Quoted.read (e.1.toList.flatMap Quoted.encodeChar ++ '"' :: ':' ::
        (encode e.2 ++ behind))
      let (v, rest) ← readColon item rest
      let (entries, rest) ← others rest
      .ok ((key, v) :: entries, rest)) = .ok result ↔
      (e.2.nesting < depth ∧ Q) ∧ result = (e :: entries, rest) := by
  have first (result : Value × List Char) :
      readColon item (':' :: (encode e.2 ++ behind)) = .ok result ↔
        e.2.nesting < depth ∧ result = (e.2, behind) := by
    rw [readColon_colon]
    exact back behind ends result
  rw [Quoted.read_encode]
  exact bind_parts_iff (fun v => (e.1, v)) first further result

theorem readEntries_rest {es : List (String × Value)}
    (back : ∀ e ∈ es, ReadsBack item depth e.2) {count : Nat} (enough : es.length < count)
    (rest : List Char) (result : List (String × Value) × List Char) :
    readEntries item false count ((es.flatMap fun e => ',' :: encodeEntry e) ++ '\x7d' :: rest) =
        .ok result ↔ (∀ e ∈ es, e.2.nesting < depth) ∧ result = (es, rest) := by
  induction es generalizing count result with
  | nil =>
    cases count with
    | zero => omega
    | succ count =>
      have closed : readEntries item false (count + 1) ('\x7d' :: rest) = .ok ([], rest) := rfl
      simp [closed, eq_comm]
  | cons e es ih =>
    cases count with
    | zero => omega
    | succ count =>
      have others := ih (fun f mem => back f (List.mem_cons_of_mem e mem))
        (Nat.lt_of_succ_lt_succ enough)
      have entry := readEntry_iff (back e List.mem_cons_self) (ends_entry es rest) others result
      rw [List.flatMap_cons, List.cons_append, List.cons_append, List.append_assoc,
        encodeEntry_append, readEntries_comma, List.forall_mem_cons]
      exact entry

theorem readEntries_encode {es : List (String × Value)}
    (back : ∀ e ∈ es, ReadsBack item depth e.2) {count : Nat} (enough : es.length < count)
    (rest : List Char) (result : List (String × Value) × List Char) :
    readEntries item true count (encodeEntries es ++ '\x7d' :: rest) = .ok result ↔
      (∀ e ∈ es, e.2.nesting < depth) ∧ result = (es, rest) := by
  cases count with
  | zero => omega
  | succ count =>
    cases es with
    | nil =>
      have closed : readEntries item true (count + 1) ('\x7d' :: rest) = .ok ([], rest) := rfl
      simp [encodeEntries, closed, eq_comm]
    | cons e es =>
      have others := readEntries_rest (fun f mem => back f (List.mem_cons_of_mem e mem))
        (Nat.lt_of_succ_lt_succ enough) rest
      have entry := readEntry_iff (back e List.mem_cons_self) (ends_entry es rest) others result
      rw [encodeEntries_cons, List.append_assoc, encodeEntry_append, readEntries_first,
        List.forall_mem_cons]
      exact entry

end Containers

theorem length_lt_encodeItems {items : List Value} (floatless : ∀ v ∈ items, v.hasFloat = false)
    (rest : List Char) : items.length < (encodeItems items ++ rest).length + 1 := by
  cases items with
  | nil => exact Nat.succ_pos _
  | cons v items =>
    obtain ⟨c, cs, written, -⟩ := exists_encode (floatless v List.mem_cons_self)
    have filled (w : Value) : 1 ≤ (',' :: encode w).length := Nat.le_add_left 1 _
    have others := length_le_length_flatMap filled items
    simp only [encodeItems_cons, written, List.length_append, List.length_cons]
    omega

theorem length_lt_encodeEntries (entries : List (String × Value)) (rest : List Char) :
    entries.length < (encodeEntries entries ++ rest).length + 1 := by
  cases entries with
  | nil => exact Nat.succ_pos _
  | cons e entries =>
    have filled (f : String × Value) : 1 ≤ (',' :: encodeEntry f).length := Nat.le_add_left 1 _
    have others := length_le_length_flatMap filled entries
    simp only [encodeEntries_cons, encodeEntry, Quoted.encode, List.length_append,
      List.length_cons] at others ⊢
    omega

theorem readValue_digit {c : Char} (digit : c.isDigit = true) (depth : Nat) (cs : List Char) :
    readValue (depth + 1) (c :: cs) = (do
      let (n, rest) ← Numeral.read false (c :: cs)
      .ok (.number n, rest)) := by
  have differs {d : Char} {ds : List Char} (same : c :: cs = d :: ds) : d.isDigit = true :=
    (List.cons.inj same).1 ▸ digit
  rw [readValue, skipBlanks_cons (starts_of_isDigit digit).1]
  split <;> rename_i same
  case h_9 =>
    obtain ⟨rfl, rfl⟩ := List.cons.inj same
    rw [if_pos digit]
  case h_1 => cases same
  -- No word, sign, quote or bracket is a digit.
  all_goals cases differs same

theorem readValue_integer {depth : Nat} (i : Int64) {rest : List Char}
    (ends : ∀ c ∈ rest.head?, Numeral.isFigure c = false) :
    readValue (depth + 1) ((encodeNumber (.integer i)).toList ++ rest) =
      .ok (.number (.integer i), rest) := by
  have whole := Numeral.whole_natAbs i
  have read (negative : Bool) :=
    @Numeral.read_naturalDigits negative _ _ (Numeral.natAbs_le_significandLimit i) ends
  rw [toList_encodeNumber_integer]
  split
  · rename_i below
    rw [decide_eq_true below] at whole
    rw [List.append_assoc, List.singleton_append, readValue, skipBlanks_cons (by decide)]
    simp only [read, bind, Except.bind, whole]
  · rename_i positive
    rw [decide_eq_false positive] at whole
    obtain ⟨c, cs, digits, digit⟩ := Number.exists_digit i.toInt.natAbs
    rw [List.nil_append, digits, List.cons_append, readValue_digit digit, ← List.cons_append,
      ← digits]
    simp only [read, bind, Except.bind, whole]

theorem readsBack_readValue {v : Value} (distinct : v.DistinctKeys) (floatless : v.hasFloat = false)
    (depth : Nat) : ReadsBack (readValue depth) depth v := by
  -- The reader recurses on the depth that is left, not on the value.
  induction depth generalizing v with
  | zero =>
    intro rest ends result
    simp [readValue]
  | succ depth ih =>
    intro rest ends result
    have scalar {v : Value} (flat : v.nesting = 0)
        (read : readValue (depth + 1) (encode v ++ rest) = .ok (v, rest)) :
        readValue (depth + 1) (encode v ++ rest) = .ok result ↔
          v.nesting < depth + 1 ∧ result = (v, rest) := by
      simp [flat, read, eq_comm]
    cases v with
    | object entries =>
      rw [Value.distinctKeys_object_iff] at distinct
      rw [Value.hasFloat, Value.entriesHaveFloat_eq_false_iff] at floatless
      have back (e : String × Value) (mem : e ∈ entries) : ReadsBack (readValue depth) depth e.2 :=
        ih (distinct.2 e mem) (floatless e mem)
      have read := readEntries_encode back (length_lt_encodeEntries entries ('\x7d' :: rest)) rest
      rw [encode, List.cons_append, List.cons_append, List.append_assoc, List.singleton_append,
        readValue, skipBlanks_cons (by decide), Value.nesting, Nat.succ_lt_succ_iff,
        Value.entriesNesting_lt_iff]
      simp only
      by_cases limit : depth = 0
      · simp [limit]
      · have whole := bind_whole_iff Value.ofEntries read result
        rw [Value.ofEntries_of_nodup distinct.1] at whole
        rw [if_neg limit, and_iff_right (Nat.pos_of_ne_zero limit)]
        exact whole
    | array items =>
      rw [Value.distinctKeys_array_iff] at distinct
      rw [Value.hasFloat, Value.itemsHaveFloat_eq_false_iff] at floatless
      have back (v : Value) (mem : v ∈ items) : ReadsBack (readValue depth) depth v :=
        ih (distinct v mem) (floatless v mem)
      have enough := length_lt_encodeItems floatless (']' :: rest)
      have read := readItems_encode back floatless enough rest
      rw [encode, List.cons_append, List.cons_append, List.append_assoc, List.singleton_append,
        readValue, skipBlanks_cons (by decide), Value.nesting, Nat.succ_lt_succ_iff,
        Value.itemsNesting_lt_iff]
      simp only
      by_cases limit : depth = 0
      · simp [limit]
      · rw [if_neg limit, and_iff_right (Nat.pos_of_ne_zero limit)]
        exact bind_whole_iff Value.array read result
    | text s =>
      apply scalar rfl
      rw [encode, Quoted.encode, List.cons_append, List.cons_append, List.append_assoc,
        List.singleton_append, readValue, skipBlanks_cons (by decide)]
      simp only [Quoted.read_encode, bind, Except.bind]
    | number n =>
      cases n with
      | float x => cases floatless
      | integer i => exact scalar rfl (readValue_integer i ends)
    | boolean b => cases b <;> exact scalar rfl rfl
    | null => exact scalar rfl rfl

end Json

end DescriptorCheck
