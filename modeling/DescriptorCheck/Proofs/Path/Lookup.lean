import DescriptorCheck.Proofs.Files.Names
import DescriptorCheck.Proofs.Path.Descent
import DescriptorCheck.Proofs.Path.Preorder

set_option autoImplicit false

namespace DescriptorCheck

namespace Text

theorem join_splitChars {separator : Char} {cs first : List Char} {rest : List (List Char)}
    (split : splitChars separator cs = first :: rest) :
    first ++ rest.flatMap (separator :: ·) = cs := by
  induction cs generalizing first rest with
  | nil =>
    cases split
    rfl
  | cons c cs ih =>
    rw [splitChars] at split
    obtain ⟨piece, pieces, behind⟩ := List.exists_cons_of_ne_nil (splitChars_ne_nil separator cs)
    have joined := ih behind
    rw [behind] at split
    split at split
    · rename_i same
      cases split
      rw [List.nil_append, List.flatMap_cons, same, List.cons_append, joined]
    · cases split
      rw [List.cons_append, joined]

theorem splitChars_join {separator : Char} {first : List Char} {rest : List (List Char)}
    (whole : separator ∉ first) (wholes : ∀ piece ∈ rest, separator ∉ piece) :
    splitChars separator (first ++ rest.flatMap (separator :: ·)) = first :: rest := by
  induction rest generalizing first with
  | nil => rw [List.flatMap_nil, List.append_nil, splitChars_of_not_mem whole]
  | cons piece rest ih =>
    obtain ⟨whole', wholes⟩ := List.forall_mem_cons.1 wholes
    rw [List.flatMap_cons, List.cons_append, splitChars_append_separator,
      splitChars_of_not_mem whole, ih whole' wholes]
    rfl

end Text

namespace Position

/-- The position of the keys between the points of a text. -/
def ofDotted (d : String) : Position := (Text.split '.' d).map Step.key

theorem ofDotted_ne_nil (d : String) : ofDotted d ≠ [] := by
  simp [ofDotted, Text.split, Text.splitChars_ne_nil]

theorem flatMap_chars_key (keys : List String) :
    (keys.map Step.key).flatMap Step.chars = (keys.map String.toList).flatMap ('.' :: ·) := by
  rw [List.flatMap_map, List.flatMap_map]
  rfl

theorem toList_path_keys {k : String} {keys : List String}
    (plain : IsPlain ((k :: keys).map Step.key)) :
    (path ((k :: keys).map Step.key)).toList =
      k.toList ++ (keys.map String.toList).flatMap ('.' :: ·) := by
  rw [List.map_cons, toList_path_cons plain, flatMap_chars_key]
  rfl

theorem path_ofDotted {d : String} (plain : (ofDotted d).IsPlain) : path (ofDotted d) = d := by
  obtain ⟨first, rest, split⟩ := List.exists_cons_of_ne_nil (Text.splitChars_ne_nil '.' d.toList)
  have keys : Text.split '.' d = String.ofList first :: rest.map String.ofList := by
    rw [Text.split, split, List.map_cons]
  rw [ofDotted, keys] at plain ⊢
  apply String.toList_inj.1
  rw [toList_path_keys plain, List.map_map, String.toList_ofList]
  simpa using Text.join_splitChars split

theorem exists_keys {p : Position} (keys : ∀ s ∈ p, ∃ k, s = .key k) :
    ∃ ks : List String, p = ks.map Step.key := by
  induction p with
  | nil => exact ⟨[], rfl⟩
  | cons s p ih =>
    obtain ⟨⟨k, rfl⟩, behind⟩ := List.forall_mem_cons.1 keys
    obtain ⟨ks, rfl⟩ := ih behind
    exact ⟨k :: ks, rfl⟩

theorem exists_keys_of_not_mem {p : Position} (plain : p.IsPlain) (free : '[' ∉ (path p).toList) :
    ∃ ks : List String, p = ks.map Step.key := by
  apply exists_keys
  intro s mem
  cases s with
  | key k => exact ⟨k, rfl⟩
  | index i =>
    cases p with
    | nil => cases mem
    | cons first rest =>
      rw [toList_path_cons plain] at free
      rcases List.mem_cons.1 mem with rfl | behind
      · exact absurd (by simp [Step.lead]) free
      · have bracket : '[' ∈ rest.flatMap Step.chars :=
          List.mem_flatMap.2 ⟨_, behind, List.mem_cons_self⟩
        exact absurd (List.mem_append_right _ bracket) free

theorem ofDotted_path {p : Position} (plain : p.IsPlain) (nonempty : p ≠ [])
    (free : '[' ∉ (path p).toList) : ofDotted (path p) = p := by
  obtain ⟨keys, rfl⟩ := exists_keys_of_not_mem plain free
  cases keys with
  | nil => exact absurd rfl nonempty
  | cons k keys =>
    have whole : ∀ key ∈ k :: keys, '.' ∉ key.toList := by
      intro key mem
      have := plain (.key key) (List.mem_map_of_mem mem)
      exact this.2.1
    obtain ⟨here, behind⟩ := List.forall_mem_cons.1 whole
    rw [ofDotted, Text.split, toList_path_keys plain,
      Text.splitChars_join here (by simpa using behind)]
    simp

end Position

namespace Value

theorem child?_key (k : String) (v : Value) : v.child? (.key k) = v.get? k := by
  cases v <;> rfl

theorem getDotted?_eq_at? (root : Value) (d : String) :
    root.getDotted? d = root.at? (Position.ofDotted d) := by
  rw [getDotted?, at?, Position.ofDotted, List.foldlM_map]
  simp only [child?_key]

theorem eq_filterMap_of_maps {es : List Element} {places : List Position}
    {text : Position → String} {value? : Position → Option Value}
    (paths : es.map Element.path = places.map text)
    (values : places.map value? = es.map fun e => some e.value) :
    es = places.filterMap fun p => (value? p).map (Element.mk (text p)) := by
  induction es generalizing places with
  | nil =>
    obtain rfl := List.map_eq_nil_iff.1 values
    rfl
  | cons e es ih =>
    cases places with
    | nil => cases values
    | cons p places =>
      obtain ⟨path, paths⟩ := List.cons.inj paths
      obtain ⟨value, values⟩ := List.cons.inj values
      have here : (value? p).map (Element.mk (text p)) = some e := by
        rw [value, ← path]
        rfl
      rw [List.filterMap_cons, here]
      exact congrArg (e :: ·) (ih paths values)

theorem elementsUnder_eq_filterMap (path : String) {v : Value} (distinct : v.DistinctKeys) :
    v.elementsUnder path =
      v.positions.filterMap fun p => (v.at? p).map (Element.mk (p.foldl Step.extend path)) :=
  eq_filterMap_of_maps (map_path_elementsUnder path v) (map_at?_positions path v distinct)

section Documents

variable {root : Value} (distinct : root.DistinctKeys)

include distinct

theorem mem_flatten_iff (e : Element) :
    e ∈ root.flatten ↔
      ∃ p : Position, p ≠ [] ∧ p.path = e.path ∧ root.at? p = some e.value := by
  rw [flatten, elementsUnder_eq_filterMap "" distinct, List.mem_filterMap]
  refine exists_congr fun p => ?_
  rw [mem_positions_iff distinct]
  constructor
  · rintro ⟨⟨nonempty, -⟩, here⟩
    obtain ⟨v, value, rfl⟩ := Option.map_eq_some_iff.1 here
    exact ⟨nonempty, rfl, value⟩
  · rintro ⟨nonempty, path, value⟩
    refine ⟨⟨nonempty, Option.isSome_of_eq_some value⟩, ?_⟩
    rw [value, Option.map_some]
    change some (Element.mk (Position.path p) e.value) = some e
    rw [path]

theorem exists_block_apart {p : Position} {v : Value} (nonempty : p ≠ [])
    (found : root.at? p = some v) : ∃ before after,
      root.positions = before ++ ([] :: v.positions).map (p ++ ·) ++ after ∧
      ∀ q ∈ before ++ after, ¬p <+: q := by
  obtain ⟨s, rest, rfl⟩ := List.exists_cons_of_ne_nil nonempty
  obtain ⟨before, after, block⟩ := exists_block found
  refine ⟨before, after, block, ?_⟩
  rintro _ outside ⟨r, rfl⟩
  have listed : s :: rest ++ r ∈ root.positions := by
    rw [block]
    simp only [List.mem_append] at outside ⊢
    exact outside.elim (fun front => .inl (.inl front)) .inr
  have inside : r ∈ [] :: v.positions := by
    have valid := ((mem_positions_iff distinct _).1 listed).2
    rw [at?_append, found, Option.bind_some] at valid
    by_cases here : r = []
    · exact here ▸ List.mem_cons_self
    · exact List.mem_cons_of_mem _ ((mem_positions_iff (distinct.of_at? found) r).2 ⟨here, valid⟩)
  have again := List.mem_map_of_mem (f := (s :: rest ++ ·)) inside
  have nodup := nodup_positions distinct
  rw [block] at nodup
  rcases List.mem_append.1 outside with front | back
  · exact List.disjoint_of_nodup_append (List.nodup_append.1 nodup).1 front again
  · exact List.disjoint_of_nodup_append nodup (List.mem_append_right _ again) back

variable (plain : ∀ k ∈ root.keys, IsPlainKey k)

include plain

theorem isPlain_of_at? {p : Position} {v : Value} (found : root.at? p = some v) : p.IsPlain := by
  by_cases nonempty : p = []
  · subst nonempty
    exact fun s mem => absurd mem List.not_mem_nil
  · have valid := Option.isSome_of_eq_some found
    exact isPlain_of_mem_positions plain ((mem_positions_iff distinct p).2 ⟨nonempty, valid⟩)

/-- A dotted text leads to a value if and only if an element has the text as its path
and this value. -/
theorem getDotted?_eq_some_iff {d : String} (free : '[' ∉ d.toList) (v : Value) :
    root.getDotted? d = some v ↔ ⟨d, v⟩ ∈ root.flatten := by
  rw [getDotted?_eq_at?, mem_flatten_iff distinct]
  constructor
  · intro found
    have path := Position.path_ofDotted (isPlain_of_at? distinct plain found)
    exact ⟨_, Position.ofDotted_ne_nil d, path, found⟩
  · rintro ⟨p, nonempty, rfl, found⟩
    have dotted := Position.ofDotted_path (isPlain_of_at? distinct plain found) nonempty free
    rwa [dotted]

/-- What segment matching finds under the path of a position, in order: the element there
and those below its value. -/
theorem filter_isUnder_flatten {p : Position} {v : Value} (nonempty : p ≠ [])
    (found : root.at? p = some v) :
    root.flatten.filter (fun e => Matching.segment.isUnder e.path p.path) =
      ⟨p.path, v⟩ :: v.elementsUnder p.path := by
  obtain ⟨before, after, block, apart⟩ := exists_block_apart distinct nonempty found
  let element? (q : Position) : Option Element :=
    ((root.at? q).map (Element.mk q.path)).filter fun e =>
      Matching.segment.isUnder e.path p.path
  have under {q : Position} {w : Value} (here : root.at? q = some w) :
      Matching.segment.isUnder q.path p.path = true ↔ p <+: q :=
    Matching.isUnder_path_iff (isPlain_of_at? distinct plain here)
      (isPlain_of_at? distinct plain found)
  have outside {qs : List Position} (apart : ∀ q ∈ qs, ¬p <+: q) : qs.filterMap element? = [] := by
    rw [List.filterMap_eq_nil_iff]
    intro q mem
    cases here : root.at? q with
    | none => simp [element?, here]
    | some w => simp [element?, here, mt (under here).1 (apart q mem)]
  have inside (r : Position) :
      element? (p ++ r) = (v.at? r).map (Element.mk (r.foldl Step.extend p.path)) := by
    have below : root.at? (p ++ r) = v.at? r := by rw [at?_append, found, Option.bind_some]
    cases here : v.at? r with
    | none => simp [element?, below, here]
    | some w =>
      have path : Position.path (p ++ r) = r.foldl Step.extend p.path := List.foldl_append
      have kept := (under (below.trans here)).2 (List.prefix_append p r)
      rw [path] at kept
      simp [element?, below, here, path, kept]
  have first : root.flatten.filter (fun e => Matching.segment.isUnder e.path p.path) =
      root.positions.filterMap element? := by
    rw [flatten, elementsUnder_eq_filterMap "" distinct, List.filter_filterMap]
    rfl
  rw [first, block, List.filterMap_append, List.filterMap_append,
    outside fun q mem => apart q (List.mem_append_left after mem),
    outside fun q mem => apart q (List.mem_append_right before mem), List.filterMap_map,
    elementsUnder_eq_filterMap p.path (distinct.of_at? found)]
  simp only [Function.comp_def, inside, List.filterMap_cons, at?_nil, List.nil_append,
    List.append_nil]
  rfl

end Documents

end Value

end DescriptorCheck
