import DescriptorCheck.Proofs.Json.Escaping
import DescriptorCheck.Proofs.Toml.Quoted
import DescriptorCheck.Toml.Reader

set_option autoImplicit false

namespace DescriptorCheck.Toml

structure IsBare (key : String) : Prop where
  nonempty : key.toList ≠ []
  bare : ∀ c ∈ key.toList, isBareKey c = true

instance (key : String) : Decidable (IsBare key) :=
  decidable_of_iff (key.toList ≠ [] ∧ key.toList.all isBareKey = true)
    ⟨fun h => ⟨h.1, List.all_eq_true.1 h.2⟩, fun h => ⟨h.nonempty, List.all_eq_true.2 h.bare⟩⟩

def stringLine (entry : String × String) : List Char :=
  entry.1.toList ++ ' ' :: '=' :: ' ' :: (Quoted.encode entry.2 ++ ['\n'])

section Start

variable {c : Char} (bare : isBareKey c = true)

include bare

theorem ne_of_isBareKey {d : Char} (other : isBareKey d = false) : c ≠ d := by
  rintro rfl
  exact Bool.false_ne_true (other.symm.trans bare)

theorem skipSpaces_of_isBareKey (rest : List Char) : skipSpaces (c :: rest) = c :: rest := by
  have space : c ≠ ' ' := ne_of_isBareKey bare (by decide)
  have tab : c ≠ '\t' := ne_of_isBareKey bare (by decide)
  exact List.dropWhile_cons_of_neg (by simp [Quoted.isSpace, space, tab])

theorem skipFiller_of_isBareKey (rest : List Char) :
    skipFiller (c :: rest).length (c :: rest) = c :: rest := by
  have comment : skipComment (c :: rest) = c :: rest :=
    skipComment.eq_2 _ fun _ same => ne_of_isBareKey bare (by decide) (List.cons.inj same).1
  have unbroken := Quoted.skipBreak?_of_ne (ne_of_isBareKey bare (by decide))
    (ne_of_isBareKey bare (by decide)) rest
  rw [List.length_cons, skipFiller]
  simp only [skipSpaces_of_isBareKey bare, comment, unbroken]

end Start

theorem exists_encode_cons (s : String) :
    ∃ quote text, Quoted.encode s = quote :: text ∧ (quote = '"' ∨ quote = '\'') := by
  unfold Quoted.encode
  dsimp only
  split
  · exact ⟨'"', _, rfl, .inl rfl⟩
  · exact ⟨'\'', _, rfl, .inr rfl⟩
  · exact ⟨'"', _, rfl, .inl rfl⟩
  · exact ⟨'\'', _, rfl, .inr rfl⟩

theorem readValue_encode (depth : Nat) (s : String) (rest : List Char) :
    readValue depth (skipSpaces (' ' :: (Quoted.encode s ++ '\n' :: rest))) =
      some (.string s, '\n' :: rest) := by
  have ends : ∀ c ∈ ('\n' :: rest).head?, c ≠ '"' ∧ c ≠ '\'' := by simp
  have read := Quoted.read_encode s ends
  obtain ⟨quote, text, written, rfl | rfl⟩ := exists_encode_cons s
  · rw [written] at read ⊢
    change readValue depth ('"' :: (text ++ '\n' :: rest)) = _
    rw [List.cons_append] at read
    rw [readValue, read]
    rfl
  · rw [written] at read ⊢
    change readValue depth ('\'' :: (text ++ '\n' :: rest)) = _
    rw [List.cons_append] at read
    rw [readValue, read]
    rfl

theorem readPart_append {key : String} (valid : IsBare key) (rest : List Char) :
    readPart (key.toList ++ ' ' :: rest) = some (key, ' ' :: rest) := by
  have taken : (key.toList ++ ' ' :: rest).takeWhile isBareKey = key.toList :=
    Text.takeWhile_append_cons valid.bare (by decide) rest
  have left : (key.toList ++ ' ' :: rest).dropWhile isBareKey = ' ' :: rest :=
    Text.dropWhile_append_cons valid.bare (by decide) rest
  have quote {d : Char} {more : List Char} (other : isBareKey d = false) :
      key.toList ++ ' ' :: rest ≠ d :: more := by
    obtain ⟨c, cs, head⟩ := List.exists_cons_of_ne_nil valid.nonempty
    rw [head, List.cons_append]
    exact fun same => ne_of_isBareKey (valid.bare c (by simp [head])) other (List.cons.inj same).1
  rw [readPart.eq_3 _ (fun _ => quote (by decide)) (fun _ => quote (by decide)), taken, left]
  simp [valid.nonempty]

theorem readKey_append {key : String} (valid : IsBare key) (rest : List Char) :
    readKey (key.toList ++ ' ' :: '=' :: rest) = some (([], key), '=' :: rest) := by
  have start : skipSpaces (key.toList ++ ' ' :: '=' :: rest) =
      key.toList ++ ' ' :: '=' :: rest := by
    obtain ⟨c, cs, head⟩ := List.exists_cons_of_ne_nil valid.nonempty
    rw [head, List.cons_append]
    exact skipSpaces_of_isBareKey (valid.bare c (by simp [head])) _
  have parts : readParts (nestingLimit - 1) (key.toList ++ ' ' :: '=' :: rest) =
      some ([key], '=' :: rest) := by
    rw [show nestingLimit - 1 = 78 + 1 from rfl, readParts, start, readPart_append valid]
    rfl
  rw [readKey, parts]
  rfl

theorem readEntry_append {key : String} (valid : IsBare key) (value : String) (rest : List Char) :
    readEntry (readValue (nestingLimit - 1)) (stringLine (key, value) ++ rest) =
      some (([], key, .string value), '\n' :: rest) := by
  have line : stringLine (key, value) ++ rest =
      key.toList ++ ' ' :: '=' :: (' ' :: (Quoted.encode value ++ '\n' :: rest)) := by
    simp [stringLine]
  rw [line, readEntry, readKey_append valid]
  change (readValue (nestingLimit - 1) (skipSpaces (' ' :: (Quoted.encode value ++ '\n' :: rest)))
    >>= fun _ => _) = _
  rw [readValue_encode]
  rfl

theorem add_of_fresh {entries : Entries} {key : String} (fresh : key ∉ entries.map Prod.fst)
    (n : Node) : Progress.add ⟨entries, []⟩ [] key n = some ⟨entries ++ [(key, n)], []⟩ := by
  have absent : entries.lookup key = none := by
    refine List.lookup_eq_none_iff.2 fun entry mem => ?_
    have ne : key ≠ entry.1 := fun same => fresh (same ▸ List.mem_map_of_mem mem)
    simpa using ne
  have inserted : entries.insert .header [] key n = some (entries ++ [(key, n)]) := by
    simp [Entries.insert, Entries.change, absent]
  change (entries.insert .header [] key n >>= fun root => _) = _
  rw [inserted]
  rfl

theorem exists_stringLine_cons {key : String} (valid : IsBare key) (value : String) :
    ∃ c text, stringLine (key, value) = c :: text ∧ isBareKey c = true := by
  obtain ⟨c, cs, head⟩ := List.exists_cons_of_ne_nil valid.nonempty
  exact ⟨c, _, by rw [stringLine, head]; rfl, valid.bare c (by simp [head])⟩

theorem readLine_stringLine {entries : Entries} {key : String} (valid : IsBare key)
    (fresh : key ∉ entries.map Prod.fst) (value : String) (rest : List Char) :
    readLine ⟨entries, []⟩ (stringLine (key, value) ++ rest) =
      some (⟨entries ++ [(key, .string value)], []⟩, rest) := by
  have bracket {more : List Char} : stringLine (key, value) ++ rest ≠ '[' :: more := by
    obtain ⟨c, text, start, bare⟩ := exists_stringLine_cons valid value
    rw [start]
    exact fun same => ne_of_isBareKey bare (by decide) (List.cons.inj same).1
  rw [readLine.eq_3 _ _ (fun _ => bracket) (fun _ => bracket), readEntry_append valid]
  change (Progress.add ⟨entries, []⟩ [] key (.string value) >>= fun p => _) = _
  rw [add_of_fresh fresh]
  rfl

theorem readLines_stringLines {count : Nat} {entries : Entries} {pairs : List (String × String)}
    (valid : ∀ pair ∈ pairs, IsBare pair.1)
    (distinct : (entries.map Prod.fst ++ pairs.map Prod.fst).Nodup)
    (enough : pairs.length < count) :
    readLines count ⟨entries, []⟩ (pairs.flatMap stringLine) =
      some (entries ++ pairs.map fun pair => (pair.1, .string pair.2)) := by
  induction pairs generalizing count entries with
  | nil =>
    obtain ⟨more, rfl⟩ := Nat.exists_eq_add_of_lt enough
    simp [readLines, skipFiller]
  | cons pair pairs ih =>
    obtain ⟨more, rfl⟩ := Nat.exists_eq_add_of_lt enough
    obtain ⟨key, value⟩ := pair
    obtain ⟨here, valid⟩ := List.forall_mem_cons.1 valid
    have fresh : key ∉ entries.map Prod.fst := fun mem =>
      (List.nodup_append.1 distinct).2.2 key mem key List.mem_cons_self rfl
    have line := readLine_stringLine here fresh value (pairs.flatMap stringLine)
    have later : readLines (pairs.length + 1 + more) ⟨entries ++ [(key, .string value)], []⟩
        (pairs.flatMap stringLine) = _ := ih valid (by simpa using distinct) (by omega)
    obtain ⟨c, text, start, bare⟩ := exists_stringLine_cons here value
    rw [start] at line
    rw [List.flatMap_cons, start, List.cons_append, readLines, skipFiller_of_isBareKey bare]
    change (readLine ⟨entries, []⟩ (c :: (text ++ pairs.flatMap stringLine)) >>= fun read =>
      readLines (pairs.length + 1 + more) read.1 read.2) = _
    rw [← List.cons_append, line]
    exact later.trans (by simp)

theorem read?_stringLines {pairs : List (String × String)} (valid : ∀ pair ∈ pairs, IsBare pair.1)
    (distinct : (pairs.map Prod.fst).Nodup) :
    read? (String.ofList (pairs.flatMap stringLine)) =
      some (pairs.map fun pair => (pair.1, .string pair.2)) := by
  have filled (pair : String × String) : 1 ≤ (stringLine pair).length := by
    simp only [stringLine, List.length_append, List.length_cons]
    omega
  have enough := Json.length_le_length_flatMap filled pairs
  have distinct' : (([] : Entries).map Prod.fst ++ pairs.map Prod.fst).Nodup := distinct
  have read := readLines_stringLines valid distinct' (Nat.lt_succ_of_le enough)
  -- No line starts with a byte order mark.
  have unmarked : ∀ rest, pairs.flatMap stringLine ≠ '\ufeff' :: rest := by
    intro rest same
    cases pairs with
    | nil => cases same
    | cons pair pairs =>
      obtain ⟨c, text, start, bare⟩ :=
        exists_stringLine_cons (valid pair List.mem_cons_self) pair.2
      rw [List.flatMap_cons, start] at same
      exact ne_of_isBareKey bare (by decide) (List.cons.inj same).1
  unfold read?
  rw [String.toList_ofList]
  split
  · exact absurd ‹_› (unmarked _)
  · exact read

end DescriptorCheck.Toml
