import DescriptorCheck.Proofs.Check.Pointwise
import DescriptorCheck.Proofs.Path.Ambiguity
import DescriptorCheck.Proofs.Path.Lookup
import Mathlib.Data.List.Infix

set_option autoImplicit false

namespace DescriptorCheck

theorem Matching.isUnder_segment_iff_continues {path node : String} (nonempty : node ≠ "") :
    segment.isUnder path node = true ↔ path = node ∨ Continues path node := by
  rw [isUnder_segment_iff, or_iff_right nonempty]
  constructor
  · rintro ⟨rest, whole, continues⟩
    cases rest with
    | nil => exact .inl (String.toList_inj.1 (whole.trans (List.append_nil _)))
    | cons c rest =>
      exact .inr ⟨c, rest, whole, Position.isSeparator_of_continues continues c rfl⟩
  · rintro (rfl | ⟨c, rest, whole, separator⟩)
    · exact ⟨[], (List.append_nil _).symm, rfl⟩
    · exact ⟨c :: rest, whole, (Position.continues_cons_iff c rest).2 separator⟩

theorem IsPlainKey.not_continues {k : String} (plain : IsPlainKey k) (l : String) :
    ¬Continues k l := by
  rintro ⟨c, rest, key, separator⟩
  exact plain.not_isSeparator c (by simp [key]) separator

namespace Position

/-- By its text a path lies at or below a plain key of the root if and only if its position
does, unless the position starts with an empty key or with one that continues the plain
key. -/
theorem isUnder_path_iff {k : String} (plain : IsPlainKey k) {s : Step}
    (started : s ≠ .key "") (apart : ∀ l, s = .key l → ¬Continues l k) (p : Position) :
    path (s :: p) = k ∨ Continues (path (s :: p)) k ↔ s = .key k := by
  have text : (path (s :: p)).toList = s.lead "" ++ (s.bare ++ p.flatMap Step.chars) := by
    rw [← List.append_assoc]
    exact toList_path_of_started (mt s.extend_eq_empty_iff.1 started) p
  have nonempty : k ≠ "" := fun empty => plain.1 (by rw [empty]; rfl)
  rw [← Matching.isUnder_segment_iff_continues nonempty, Matching.isUnder_segment_iff,
    or_iff_right nonempty, text]
  constructor
  · rintro ⟨rest, whole, continues⟩
    cases s with
    | index i =>
      obtain ⟨d, more, key⟩ := List.exists_cons_of_ne_nil plain.1
      rw [key] at whole
      obtain rfl : '[' = d := (List.cons.inj whole).1
      exact absurd (key ▸ List.mem_cons_self) plain.2.2
    | key l =>
      have keys : (Step.key l).Apart (.key k) := ⟨plain.not_continues l, apart l rfl⟩
      exact (Step.eq_of_bare_append (s := .key l) (t := .key k) rfl keys (continues_chars p)
        continues whole).1
  · rintro rfl
    exact ⟨p.flatMap Step.chars, rfl, continues_chars p⟩

end Position

namespace Build

theorem isPlainKey_propertiesNode : IsPlainKey "properties" := by decide

def propertiesFront : List Char := "properties.".toList

theorem propertiesFront_eq : propertiesFront = "properties".toList ++ ['.'] := by decide

/-- No part of the name can be read in front of the paths of properties. -/
structure IsClearOfNode (name : List Char) : Prop where
  outside : ¬name <:+: propertiesFront
  start : ∀ u, u ≠ [] → u <:+ propertiesFront → ¬u <+: name

theorem isClearOfNode_iff (name : List Char) :
    IsClearOfNode name ↔ ¬name <:+: propertiesFront ∧
      ∀ u ∈ propertiesFront.tails, u ≠ [] → ¬u <+: name := by
  simp only [List.mem_tails]
  exact ⟨fun clear => ⟨clear.outside, fun u front nonempty => clear.start u nonempty front⟩,
    fun clear => ⟨clear.1, fun u nonempty front => clear.2 u front nonempty⟩⟩

instance (name : List Char) : Decidable (IsClearOfNode name) :=
  decidable_of_iff _ (isClearOfNode_iff name).symm

theorem IsClearOfNode.infix_append_iff {name : List Char} (clear : IsClearOfNode name)
    (rest : List Char) : name <:+: propertiesFront ++ rest ↔ name <:+: rest := by
  constructor
  · intro named
    rcases List.infix_append_iff.1 named with within | behind | ⟨u, v, rfl, front, behind⟩
    · exact absurd within clear.outside
    · exact behind
    · by_cases nothing : u = []
      · subst nothing
        exact behind.isInfix
      · exact absurd (List.prefix_append u v) (clear.start u nothing front)
  · intro behind
    exact behind.trans (List.suffix_append _ rest).isInfix

end Build

namespace Value

/-- A path at the node of the properties or below it has the name in it. -/
def NamesProperty (root : Value) (name : String) : Prop :=
  ∃ e ∈ root.flatten, (e.path = "properties" ∨ Continues e.path "properties") ∧
    name.toList <:+: e.path.toList

/-- A path below the node of the properties has the name in it. -/
def DeclaresProperty (root : Value) (name : String) : Prop :=
  ∃ e ∈ root.flatten, Continues e.path "properties" ∧ name.toList <:+: e.path.toList

/-- No other key of the root makes paths that look like those of properties. -/
def PropertiesApart (root : Value) : Prop :=
  ∀ k, (root.at? [.key k]).isSome = true → k ≠ "" ∧ ¬Continues k "properties"

/-- The node itself counts only for names within its own name, and only where nothing lies
below it. -/
theorem namesProperty_iff_declaresProperty {root : Value} {name : String}
    (outside : name.toList <:+: "properties".toList →
      ∃ e ∈ root.flatten, Continues e.path "properties") :
    root.NamesProperty name ↔ root.DeclaresProperty name := by
  constructor
  · rintro ⟨e, mem, here | below, named⟩
    · -- The node has the name in it, and so has every path below the node.
      rw [here] at named
      obtain ⟨d, mem, below⟩ := outside named
      obtain ⟨c, rest, path, -⟩ := id below
      refine ⟨d, mem, below, ?_⟩
      rw [path]
      exact named.trans (List.prefix_append _ _).isInfix
    · exact ⟨e, mem, below, named⟩
  · rintro ⟨e, mem, below, named⟩
    exact ⟨e, mem, .inr below, named⟩

section Documents

variable {root : Value} (apart : root.PropertiesApart)

include apart

theorem isUnder_path_properties_iff {s : Step} {p : Position}
    (valid : (root.at? (s :: p)).isSome = true) :
    Position.path (s :: p) = "properties" ∨ Continues (Position.path (s :: p)) "properties" ↔
      s = .key "properties" := by
  have first (k : String) (key : s = .key k) : k ≠ "" ∧ ¬Continues k "properties" := by
    obtain ⟨v, child, -⟩ := exists_child? valid
    apply apart k
    rw [at?_cons, ← key, child]
    rfl
  apply Position.isUnder_path_iff Build.isPlainKey_propertiesNode
  · intro key
    exact (first "" key).1 rfl
  · intro k key
    exact (first k key).2

variable (distinct : root.DistinctKeys)

include distinct

theorem namesProperty_iff (name : String) :
    root.NamesProperty name ↔
      ∃ p v, root.at? (.key "properties" :: p) = some v ∧
        name.toList <:+: (Position.path (.key "properties" :: p)).toList := by
  constructor
  · rintro ⟨e, mem, lies, named⟩
    obtain ⟨p, nonempty, path, value⟩ := (mem_flatten_iff distinct e).1 mem
    obtain ⟨s, p, rfl⟩ := List.exists_cons_of_ne_nil nonempty
    rw [← path] at lies named
    obtain rfl := (isUnder_path_properties_iff apart (Option.isSome_of_eq_some value)).1 lies
    exact ⟨p, e.value, value, named⟩
  · rintro ⟨p, v, value, named⟩
    have lies := (isUnder_path_properties_iff apart (Option.isSome_of_eq_some value)).2 rfl
    have mem := (mem_flatten_iff distinct ⟨_, v⟩).2 ⟨_, List.cons_ne_nil _ _, rfl, value⟩
    exact ⟨_, mem, lies, named⟩

theorem namesProperty_iff_behind
    (mapping : ∀ v, root.at? [.key "properties"] = some v → v.isObject = true)
    {name : String} (clear : Build.IsClearOfNode name.toList) :
    root.NamesProperty name ↔ ∃ e ∈ root.flatten, ∃ behind,
      e.path.toList = Build.propertiesFront ++ behind ∧ name.toList <:+: behind := by
  constructor
  · intro named
    obtain ⟨p, v, value, named⟩ := (namesProperty_iff apart distinct name).1 named
    cases p with
    | nil =>
      have node : (Position.path [.key "properties"]).toList <+: Build.propertiesFront := by decide
      exact absurd (named.trans node.isInfix) clear.outside
    | cons s p =>
      obtain ⟨properties, child, valid⟩ := exists_child? (Option.isSome_of_eq_some value)
      obtain ⟨property, below, -⟩ := exists_child? valid
      have object := mapping properties (by rw [at?_cons, child]; rfl)
      obtain ⟨k, rfl⟩ : ∃ k, s = .key k := by
        cases s with
        | key k => exact ⟨k, rfl⟩
        | index i => cases properties <;> simp [isObject, child?] at object below
      have path : (Position.path (.key "properties" :: .key k :: p)).toList =
          Build.propertiesFront ++ (k.toList ++ p.flatMap Step.chars) :=
        Position.toList_path_of_started (s := .key "properties") (by decide) (.key k :: p)
      have mem := (mem_flatten_iff distinct ⟨_, v⟩).2 ⟨_, List.cons_ne_nil _ _, rfl, value⟩
      rw [path, clear.infix_append_iff] at named
      exact ⟨_, mem, _, path, named⟩
  · rintro ⟨e, mem, behind, path, named⟩
    have lies : e.path.toList = "properties".toList ++ '.' :: behind := by
      rw [path, Build.propertiesFront_eq, List.append_assoc, List.singleton_append]
    refine ⟨e, mem, .inr ⟨'.', behind, lies, .inl rfl⟩, ?_⟩
    rw [path]
    exact (clear.infix_append_iff behind).2 named

end Documents

end Value

theorem Predicate.exists_admits_property_iff (root : Value) (name node : String) :
    (∃ e ∈ root.flatten, (Predicate.property name).admits .segment node e = true) ↔
      root.NamesProperty name := by
  have admitted (e : Element) : (Predicate.property name).admits .segment node e = true ↔
      (e.path = "properties" ∨ Continues e.path "properties") ∧
        name.toList <:+: e.path.toList := by
    rw [admits, Bool.and_eq_true, Matching.isUnder_segment_iff_continues (by decide),
      Text.contains, Text.containsChars_iff]
    rfl
  simp only [admitted]
  rfl

namespace Checker

/-- A chain that asks for one property, wherever its node is, finds the name in the paths
at the node of the properties and below it, the node's name in front of them included. So
where nothing lies below the node it finds at most a part of the node's own name. -/
theorem property_found_where_declared (k : Checker) {root : Value}
    (elements : k.elements = root.flatten.toArray) (distinct : root.DistinctKeys)
    (segment : k.matching = .segment) (given : Option String) {name : String}
    (spelt : Text.isBlank name = false) :
    ∃ q r, k.runQuery given .should (.first (.property name)) = .ok q ∧
      k.runQuery given .shouldNot (.first (.property name)) = .ok r ∧
      (q.verdict = .ok () ↔ root.NamesProperty name) ∧
      (r.verdict ≠ .ok () ↔ root.NamesProperty name) ∧
      ((name.toList <:+: "properties".toList →
          ∃ e ∈ root.flatten, Continues e.path "properties") →
        (root.NamesProperty name ↔ root.DeclaresProperty name)) ∧
      ((∀ e ∈ root.flatten, ¬Continues e.path "properties") →
        (name.toList <:+: "properties".toList → ∀ e ∈ root.flatten, e.path ≠ "properties") →
        q.verdict ≠ .ok () ∧ r.verdict = .ok ()) ∧
      (root.PropertiesApart →
        (root.NamesProperty name ↔
          ∃ p v, root.at? (.key "properties" :: p) = some v ∧
            name.toList <:+: (Position.path (.key "properties" :: p)).toList) ∧
        ((∀ v, root.at? [.key "properties"] = some v → v.isObject = true) →
          Build.IsClearOfNode name.toList →
          (root.NamesProperty name ↔ ∃ e ∈ root.flatten, ∃ behind,
            e.path.toList = Build.propertiesFront ++ behind ∧ name.toList <:+: behind))) := by
  have found := Predicate.exists_admits_property_iff root name (given.getD modulesNode)
  have pointwise : ∀ p ∈ (Chain.first (Predicate.property name)).predicates,
      p.isPointwise = true := by
    simp [Chain.predicates, Predicate.isPointwise]
  have spelt : ∀ p ∈ (Chain.first (Predicate.property name)).predicates, p.IsSpelt := by
    simp [Chain.predicates, Predicate.IsSpelt, Predicate.arguments, spelt]
  obtain ⟨q, asked, -, passes⟩ := k.pointwise_outcome given .should _ pointwise spelt
  obtain ⟨r, forbidden, -, fails⟩ := k.pointwise_outcome given .shouldNot _ pointwise spelt
  simp only [elements, segment, List.toList_toArray, Chain.predicates, Chain.beforeLastAnd,
    Nat.zero_add, List.take_one, List.head?_cons, Option.toList_some, List.forall_mem_singleton,
    found] at passes fails
  have fails : r.verdict ≠ .ok () ↔ root.NamesProperty name := not_iff_comm.1 fails.symm
  refine ⟨q, r, asked, forbidden, passes, fails, Value.namesProperty_iff_declaresProperty, ?_, ?_⟩
  · intro nothing elsewhere
    have unnamed : ¬root.NamesProperty name := by
      rintro ⟨e, mem, here | below, named⟩
      · exact elsewhere (here ▸ named) e mem here
      · exact nothing e mem below
    exact ⟨mt passes.1 unnamed, not_not.1 (mt fails.1 unnamed)⟩
  · intro apart
    refine ⟨Value.namesProperty_iff apart distinct name, ?_⟩
    intro mapping clear
    exact Value.namesProperty_iff_behind apart distinct mapping clear

theorem property_found_where_declared_on_version :
    let root := Value.object
      [("build", .null), ("properties", .object [("java.version", .text "11")])]
    let k : Checker :=
      ⟨root.flatten.toArray, .segment, ⟨fun _ => false, fun _ => false⟩, "pom.xml"⟩
    root.DistinctKeys ∧ Text.isBlank "java.version" = false ∧
    ∃ q r, k.runQuery (some "build") .should (.first (.property "java.version")) = .ok q ∧
      k.runQuery (some "build") .shouldNot (.first (.property "java.version")) = .ok r ∧
      q.verdict = .ok () ∧ r.verdict ≠ .ok () := by
  intro root k
  have distinct : root.DistinctKeys := by
    simp [root, Value.DistinctKeys, Value.EntriesDistinct]
  have spelt : Text.isBlank "java.version" = false := by decide
  obtain ⟨q, r, asked, forbidden, passes, fails, -⟩ :=
    k.property_found_where_declared rfl distinct rfl (some "build") spelt
  have elements : root.flatten = [⟨"build", .null⟩,
      ⟨"properties", .object [("java.version", .text "11")]⟩,
      ⟨"properties.java.version", .text "11"⟩] := by rfl
  have below : Continues "properties.java.version" "properties" :=
    ⟨'.', "java.version".toList, by decide, .inl rfl⟩
  have named : root.NamesProperty "java.version" :=
    ⟨⟨"properties.java.version", .text "11"⟩, by simp [elements], .inr below, by decide⟩
  exact ⟨distinct, spelt, q, r, asked, forbidden, passes.2 named, fails.2 named⟩

/-- The name of the node counts, so a name that begins with it is found although no path
has it behind the node, and a part of it although nothing lies below the node. -/
theorem node_name_counts :
    (let root := Value.object [("properties", .object [("java", .text "11")])]
      let k : Checker :=
        ⟨root.flatten.toArray, .segment, ⟨fun _ => false, fun _ => false⟩, "pom.xml"⟩
      (∃ q, k.runQuery (some "") .should (.first (.property "properties.java")) = .ok q ∧
        q.verdict = .ok ()) ∧
      ∀ e ∈ root.flatten, ∀ behind, e.path.toList = Build.propertiesFront ++ behind →
        ¬"properties.java".toList <:+: behind) ∧
    let root := Value.object [("properties", .object [])]
    let k : Checker :=
      ⟨root.flatten.toArray, .segment, ⟨fun _ => false, fun _ => false⟩, "pom.xml"⟩
    (∃ q, k.runQuery (some "") .should (.first (.property "prop")) = .ok q ∧
      q.verdict = .ok ()) ∧
    ∀ e ∈ root.flatten, ¬Continues e.path "properties" := by
  refine ⟨?_, ?_⟩
  · intro root k
    have elements : root.flatten = [⟨"properties", .object [("java", .text "11")]⟩,
        ⟨"properties.java", .text "11"⟩] := by rfl
    constructor
    · obtain ⟨q, ran, -, passes⟩ := k.pointwise_outcome (some "") .should
        (.first (.property "properties.java")) (by decide) (by decide)
      refine ⟨q, ran, passes.2 ⟨⟨"properties.java", .text "11"⟩, ?_, by decide⟩⟩
      simp [k, elements]
    · intro e mem behind path named
      rw [elements] at mem
      -- Behind the front there is no room for the name.
      have bound : e.path.toList.length ≤ 15 := by
        simp only [List.mem_cons, List.not_mem_nil, or_false] at mem
        rcases mem with rfl | rfl <;> decide
      have long := named.length_le
      have length : "properties.java".toList.length = 15 := by decide
      have front : Build.propertiesFront.length = 11 := by decide
      rw [path, List.length_append] at bound
      omega
  · intro root k
    have elements : root.flatten = [⟨"properties", .object []⟩] := by rfl
    constructor
    · obtain ⟨q, ran, -, passes⟩ := k.pointwise_outcome (some "") .should
        (.first (.property "prop")) (by decide) (by decide)
      refine ⟨q, ran, passes.2 ⟨⟨"properties", .object []⟩, ?_, by decide⟩⟩
      simp [k, elements]
    · intro e mem below
      rw [elements, List.mem_singleton] at mem
      rw [mem] at below
      exact absurd below.length_lt (by decide)

end Checker

end DescriptorCheck
