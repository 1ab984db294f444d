import DescriptorCheck.Document.Basic
import DescriptorCheck.Proofs.Json.Reading
import DescriptorCheck.Proofs.Path.Children
import DescriptorCheck.Proofs.Xml.Grouping

set_option autoImplicit false

namespace DescriptorCheck

namespace Value

theorem entriesDistinct_iff (entries : List (String × Value)) :
    EntriesDistinct entries ↔ ∀ entry ∈ entries, entry.2.DistinctKeys := by
  induction entries with
  | nil => simp [EntriesDistinct]
  | cons entry rest ih => simp [EntriesDistinct, ih]

theorem itemsDistinct_iff (items : List Value) :
    ItemsDistinct items ↔ ∀ v ∈ items, v.DistinctKeys := by
  induction items with
  | nil => simp [ItemsDistinct]
  | cons v rest ih => simp [ItemsDistinct, ih]

theorem distinctKeys_object_iff (entries : List (String × Value)) :
    (object entries).DistinctKeys ↔
      (entries.map Prod.fst).Nodup ∧ ∀ entry ∈ entries, entry.2.DistinctKeys := by
  rw [DistinctKeys, entriesDistinct_iff]

theorem distinctKeys_array_iff (items : List Value) :
    (array items).DistinctKeys ↔ ∀ v ∈ items, v.DistinctKeys := by
  rw [DistinctKeys, itemsDistinct_iff]

def keysWith (key : String) (keys : List String) : List String :=
  if key ∈ keys then keys else keys ++ [key]

theorem keysWith_cons {key k : String} (ne : k ≠ key) (keys : List String) :
    keysWith key (k :: keys) = k :: keysWith key keys := by
  unfold keysWith
  by_cases known : key ∈ keys
  · simp [known]
  · simp [known, ne.symm]

theorem nodup_keysWith {keys : List String} (nodup : keys.Nodup) (key : String) :
    (keysWith key keys).Nodup := by
  unfold keysWith
  split
  · exact nodup
  · rename_i fresh
    apply List.Nodup.append nodup (List.nodup_singleton key)
    simpa using fresh

theorem map_fst_putEntry (key : String) (v : Value) (entries : List (String × Value)) :
    (putEntry key v entries).map Prod.fst = keysWith key (entries.map Prod.fst) := by
  induction entries with
  | nil => rfl
  | cons entry rest ih =>
    obtain ⟨k, w⟩ := entry
    rw [putEntry]
    split
    · rename_i same
      simp [keysWith, same]
    · rename_i ne
      rw [List.map_cons, List.map_cons, ih, keysWith_cons ne]

theorem mem_putEntry {key : String} {v : Value} {entries : List (String × Value)}
    {entry : String × Value} (mem : entry ∈ putEntry key v entries) :
    entry = (key, v) ∨ entry ∈ entries := by
  induction entries with
  | nil => exact .inl (List.mem_singleton.1 mem)
  | cons first rest ih =>
    obtain ⟨k, w⟩ := first
    rw [putEntry] at mem
    split at mem
    · rename_i same
      subst same
      exact (List.mem_cons.1 mem).imp id (List.mem_cons_of_mem _)
    · rcases List.mem_cons.1 mem with rfl | behind
      · exact .inr List.mem_cons_self
      · exact (ih behind).imp id (List.mem_cons_of_mem _)

theorem DistinctKeys.putEntry {v : Value} {entries : List (String × Value)}
    (distinct : (object entries).DistinctKeys) (held : v.DistinctKeys) (key : String) :
    (object (putEntry key v entries)).DistinctKeys := by
  rw [distinctKeys_object_iff] at distinct ⊢
  obtain ⟨nodup, below⟩ := distinct
  constructor
  · rw [map_fst_putEntry]
    exact nodup_keysWith nodup key
  · intro entry mem
    rcases mem_putEntry mem with rfl | old
    · exact held
    · exact below entry old

theorem distinctKeys_ofEntries {entries : List (String × Value)}
    (held : ∀ entry ∈ entries, entry.2.DistinctKeys) : (ofEntries entries).DistinctKeys := by
  have puts (known : List (String × Value)) (distinct : (object known).DistinctKeys) :
      (object (entries.foldl (fun known entry => Value.putEntry entry.1 entry.2 known)
        known)).DistinctKeys := by
    induction entries generalizing known with
    | nil => exact distinct
    | cons entry rest ih =>
      apply ih (fun e mem => held e (List.mem_cons_of_mem _ mem))
      exact distinct.putEntry (held entry List.mem_cons_self) entry.1
  apply puts
  simp [distinctKeys_object_iff]

theorem putEntry_of_not_mem {key : String} {v : Value} {entries : List (String × Value)}
    (fresh : key ∉ entries.map Prod.fst) : putEntry key v entries = entries ++ [(key, v)] := by
  induction entries with
  | nil => rfl
  | cons entry rest ih =>
    rw [List.map_cons, List.mem_cons, not_or] at fresh
    rw [putEntry, if_neg (Ne.symm fresh.1), ih fresh.2, List.cons_append]

theorem ofEntries_of_nodup {entries : List (String × Value)}
    (nodup : (entries.map Prod.fst).Nodup) : ofEntries entries = object entries := by
  have puts (known : List (String × Value)) (apart : ((known ++ entries).map Prod.fst).Nodup) :
      entries.foldl (fun known entry => putEntry entry.1 entry.2 known) known =
        known ++ entries := by
    clear nodup
    induction entries generalizing known with
    | nil => exact (List.append_nil known).symm
    | cons entry rest ih =>
      have fresh : entry.1 ∉ known.map Prod.fst := by
        intro mem
        rw [List.map_append] at apart
        exact (List.nodup_append.1 apart).2.2 _ mem _ (List.mem_cons_self ..) rfl
      rw [List.foldl_cons, putEntry_of_not_mem fresh, ih _ (by simpa using apart)]
      simp
  exact congrArg object (puts [] nodup)

end Value

theorem ok_of_mapError {ε δ α : Type} {f : ε → δ} {result : Except ε α} {a : α}
    (mapped : result.mapError f = .ok a) : result = .ok a := by
  cases result with
  | error e => cases mapped
  | ok b =>
    cases mapped
    rfl

namespace Json

mutual

theorem Form.distinctKeys_value : (f : Form) → f.value.DistinctKeys
  | .word w => by cases w <;> simp [Form.value, Word.value, Value.DistinctKeys]
  | .number _ | .text _ => by simp [Form.value, Value.DistinctKeys]
  | .emptyArray _ => by simp [Form.value, Value.distinctKeys_array_iff]
  | .array items => by
    rw [Form.value, Value.distinctKeys_array_iff]
    exact items.distinctKeys_values
  | .emptyObject _ => by
    rw [Form.value]
    exact Value.distinctKeys_ofEntries nofun
  | .object entries => by
    rw [Form.value]
    exact Value.distinctKeys_ofEntries entries.distinctKeys_entries

theorem ItemForms.distinctKeys_values : (items : ItemForms) →
    ∀ v ∈ items.values, v.DistinctKeys
  | .last _ f _ => by
    simpa [ItemForms.values] using f.distinctKeys_value
  | .more _ f _ rest => by
    simpa [ItemForms.values] using ⟨f.distinctKeys_value, rest.distinctKeys_values⟩

theorem EntryForms.distinctKeys_entries : (entries : EntryForms) →
    ∀ entry ∈ entries.entries, entry.2.DistinctKeys
  | .last _ _ _ f _ => by
    simpa [EntryForms.entries] using f.distinctKeys_value
  | .more _ _ _ f _ rest => by
    simp only [EntryForms.entries, List.forall_mem_cons]
    exact ⟨f.distinctKeys_value, rest.distinctKeys_entries⟩

end

theorem distinctKeys_read {text : String} {v : Value} (done : Json.read text = .ok v) :
    v.DistinctKeys := by
  obtain ⟨s, -, rfl, -⟩ := readAll_ok (ok_of_mapError done)
  exact s.form.distinctKeys_value

end Json

namespace Yaml

mutual

theorem Datum.distinctKeys_toValue : (d : Datum) → d.toValue.DistinctKeys
  | .null | .boolean _ | .float _ | .text _ => by simp [Datum.toValue, Value.DistinctKeys]
  | .integer i => by simp [Datum.toValue, Value.DistinctKeys]
  | .sequence items => by
    rw [Datum.toValue, Value.distinctKeys_array_iff]
    exact Datum.distinctKeys_valuesOf items
  | .mapping entries => by
    rw [Datum.toValue]
    exact Value.distinctKeys_ofEntries (Datum.distinctKeys_entriesOf entries)
  | .tagged _ content => by
    rw [Datum.toValue]
    exact content.distinctKeys_toValue

theorem Datum.distinctKeys_valuesOf : (items : List Datum) →
    ∀ v ∈ Datum.valuesOf items, v.DistinctKeys
  | [] => nofun
  | d :: rest => by
    rw [Datum.valuesOf, List.forall_mem_cons]
    exact ⟨d.distinctKeys_toValue, Datum.distinctKeys_valuesOf rest⟩

theorem Datum.distinctKeys_entriesOf : (entries : List (Datum × Datum)) →
    ∀ entry ∈ Datum.entriesOf entries, entry.2.DistinctKeys
  | [] => nofun
  | (_, d) :: rest => by
    rw [Datum.entriesOf, List.forall_mem_cons]
    exact ⟨d.distinctKeys_toValue, Datum.distinctKeys_entriesOf rest⟩

end

theorem distinctKeys_read {text : String} {v : Value} (done : Yaml.read text = .ok v) :
    v.DistinctKeys := by
  unfold Yaml.read at done
  cases read : readDatum text with
  | error e => simp [read, Except.map] at done
  | ok d =>
    obtain rfl : d.toValue = v := by simpa [read, Except.map] using done
    exact d.distinctKeys_toValue

end Yaml

namespace Xml
open Json (bind_eq_ok_iff)

theorem map_fst_addEntry (key : String) (v : Value) (entries : List (String × Value)) :
    (addEntry key v entries).map Prod.fst = Value.keysWith key (entries.map Prod.fst) := by
  induction entries with
  | nil => rfl
  | cons entry rest ih =>
    obtain ⟨k, w⟩ := entry
    by_cases same : k = key
    · subst same
      cases w <;> simp [addEntry, Value.keysWith]
    · rw [addEntry_of_ne same, List.map_cons, List.map_cons, ih, Value.keysWith_cons same]

theorem distinctKeys_addEntry {v : Value} {entries : List (String × Value)}
    (distinct : (Value.object entries).DistinctKeys) (held : v.DistinctKeys) (key : String) :
    (Value.object (addEntry key v entries)).DistinctKeys := by
  rw [Value.distinctKeys_object_iff] at distinct ⊢
  obtain ⟨nodup, below⟩ := distinct
  refine ⟨by rw [map_fst_addEntry]; exact Value.nodup_keysWith nodup key, ?_⟩
  clear nodup
  induction entries with
  | nil => simpa [addEntry] using held
  | cons entry rest ih =>
    obtain ⟨k, w⟩ := entry
    obtain ⟨here, later⟩ := List.forall_mem_cons.1 below
    by_cases same : k = key
    · subst same
      -- A further value under a key is put behind the others of it, in one array.
      have both (items : List Value) (all : ∀ w ∈ items, w.DistinctKeys) :
          ∀ entry ∈ (k, Value.array (items ++ [v])) :: rest, entry.2.DistinctKeys := by
        apply List.forall_mem_cons.2 ⟨?_, later⟩
        rw [Value.distinctKeys_array_iff, List.forall_mem_append]
        exact ⟨all, by simpa using held⟩
      cases w with
      | array items =>
        have whole := both items ((Value.distinctKeys_array_iff items).1 here)
        simpa [addEntry] using whole
      | object _ | text _ | number _ | boolean _ | null =>
        have whole := both [_] (List.forall_mem_singleton.2 here)
        simpa [addEntry] using whole
    · rw [addEntry_of_ne same]
      exact List.forall_mem_cons.2 ⟨here, ih later⟩

/-- What is named in an open element so far is an object with each key once. -/
def Frame.HasDistinctKeys (f : Frame) : Prop := (Value.object f.entries).DistinctKeys

theorem Frame.HasDistinctKeys.value {f : Frame} (distinct : f.HasDistinctKeys) :
    f.value.DistinctKeys := by
  unfold Frame.value
  dsimp only
  split
  · simp [Value.DistinctKeys]
  · split
    · exact distinct
    · apply distinct.putEntry
      simp [Value.DistinctKeys]

theorem Frame.distinctKeys_addAttributes {entries added : List (String × Value)}
    {attributes : List (Except AttributeError Attribute)}
    (distinct : (Value.object entries).DistinctKeys)
    (done : addAttributes entries attributes = .ok added) :
    (Value.object added).DistinctKeys := by
  induction attributes generalizing entries with
  | nil =>
    cases done
    exact distinct
  | cons item rest ih =>
    cases item with
    | error e => cases done
    | ok a =>
      rw [addAttributes] at done
      split at done
      · exact ih distinct done
      · split at done
        · cases done
        · apply ih _ done
          apply distinctKeys_addEntry distinct
          simp [Value.DistinctKeys]

theorem Frame.hasDistinctKeys_ofTag {t : Tag} {f : Frame} (done : ofTag t = .ok f) :
    f.HasDistinctKeys := by
  obtain ⟨entries, added, done⟩ := bind_eq_ok_iff.1 done
  cases done
  apply distinctKeys_addAttributes _ added
  simp [Value.distinctKeys_object_iff]

structure Progress.HasDistinctKeys (p : Progress) : Prop where
  frames : ∀ f ∈ p.frames, f.HasDistinctKeys
  root : ∀ v ∈ p.root, v.DistinctKeys

namespace Progress

variable {p next : Progress}

theorem hasDistinctKeys_close {f : Frame} {outer : List Frame} {root : Option Value}
    (closing : f.HasDistinctKeys) (around : HasDistinctKeys ⟨outer, root⟩)
    (done : close f outer root = .ok next) : next.HasDistinctKeys := by
  obtain ⟨frames, known⟩ := around
  cases outer with
  | nil =>
    cases root with
    | none =>
      cases done
      exact ⟨nofun, fun v same => Option.some.inj same ▸ closing.value⟩
    | some _ => cases done
  | cons parent rest =>
    cases done
    obtain ⟨innermost, others⟩ := List.forall_mem_cons.1 frames
    refine ⟨List.forall_mem_cons.2 ⟨?_, others⟩, known⟩
    exact distinctKeys_addEntry innermost closing.value f.name

theorem hasDistinctKeys_addText (distinct : p.HasDistinctKeys) (content : List Char) :
    (p.addText content).HasDistinctKeys := by
  obtain ⟨frames, root⟩ := p
  cases frames with
  | nil => exact distinct
  | cons f outer =>
    obtain ⟨innermost, others⟩ := List.forall_mem_cons.1 distinct.frames
    exact ⟨List.forall_mem_cons.2 ⟨innermost, others⟩, distinct.root⟩

theorem hasDistinctKeys_step {e : Event} (distinct : p.HasDistinctKeys)
    (done : p.step e = .ok next) : next.HasDistinctKeys := by
  cases e with
  | start tag =>
    obtain ⟨f, opened, done⟩ := bind_eq_ok_iff.1 done
    cases done
    exact ⟨List.forall_mem_cons.2 ⟨Frame.hasDistinctKeys_ofTag opened, distinct.frames⟩,
      distinct.root⟩
  | empty tag =>
    obtain ⟨f, opened, done⟩ := bind_eq_ok_iff.1 done
    exact hasDistinctKeys_close (Frame.hasDistinctKeys_ofTag opened) distinct done
  | close name =>
    obtain ⟨frames, root⟩ := p
    cases frames with
    | nil => cases done
    | cons f outer =>
      obtain ⟨innermost, others⟩ := List.forall_mem_cons.1 distinct.frames
      exact hasDistinctKeys_close innermost ⟨others, distinct.root⟩ done
  | text content =>
    rw [step] at done
    split at done
    · cases done
      exact distinct
    · split at done
      · cases done
        exact hasDistinctKeys_addText distinct _
      · cases done
  | data content =>
    cases done
    exact hasDistinctKeys_addText distinct content
  | aside =>
    cases done
    exact distinct

theorem distinctKeys_finish {v : Value} (distinct : p.HasDistinctKeys)
    (done : p.finish = .ok v) : v.DistinctKeys := by
  unfold finish at done
  split at done
  · cases done
  · cases done
    split <;> simp [Value.DistinctKeys, Value.EntriesDistinct]
  · rename_i v _ _ root
    cases done
    exact distinct.root v root
  · cases done

theorem distinctKeys_run {length : Nat} {items : List (Except Fault Event)} {v : Value}
    (distinct : p.HasDistinctKeys) (done : p.run length items = .ok v) : v.DistinctKeys := by
  induction items generalizing p with
  | nil => exact distinctKeys_finish distinct done
  | cons item rest ih =>
    cases item with
    | error fault => cases done
    | ok e =>
      obtain ⟨next, stepped, done⟩ := bind_eq_ok_iff.1 done
      exact ih (hasDistinctKeys_step distinct stepped) done

end Progress

theorem distinctKeys_read {text : String} {v : Value} (done : Xml.read text = .ok v) :
    v.DistinctKeys :=
  Progress.distinctKeys_run ⟨by simp [Progress.start], by simp [Progress.start]⟩ done

end Xml

theorem Document.parse_json_ok {text : String} {d : Document}
    (accepted : parse .json text = .ok d) :
    Json.readAll text.toList = .ok d.root ∧ d = ⟨d.root, some text⟩ := by
  cases read : Json.readAll text.toList with
  | error e => simp [parse, Json.read, read, Except.mapError, bind, Except.bind] at accepted
  | ok v =>
    obtain rfl : ⟨v, some text⟩ = d := by
      simpa [parse, Json.read, read, Except.mapError, bind, Except.bind, pure, Except.pure]
        using accepted
    exact ⟨rfl, rfl⟩

theorem Document.distinctKeys_parse {format : Format} {text : String} {d : Document}
    (accepted : parse format text = .ok d) : d.root.DistinctKeys := by
  cases format with
  | xml =>
    obtain ⟨root, read, done⟩ := Json.bind_eq_ok_iff.1 accepted
    cases done
    exact Xml.distinctKeys_read (ok_of_mapError read)
  | yaml =>
    obtain ⟨root, read, done⟩ := Json.bind_eq_ok_iff.1 accepted
    cases done
    exact Yaml.distinctKeys_read (ok_of_mapError read)
  | json =>
    obtain ⟨root, read, done⟩ := Json.bind_eq_ok_iff.1 accepted
    cases done
    exact Json.distinctKeys_read (ok_of_mapError read)

end DescriptorCheck
