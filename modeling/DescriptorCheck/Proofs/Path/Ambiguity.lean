import DescriptorCheck.Proofs.Path.Rendering

set_option autoImplicit false

/-! Two positions of a document can share their path text only where they part at two keys of
one object of which one continues the other, as `a.b` continues `a`, or where one of them passes
through an empty key of the root. -/
namespace DescriptorCheck

/-- The key `l` is the key `k` and then goes on as a path below `k` does. -/
def Continues (l k : String) : Prop := ∃ c rest, l.toList = k.toList ++ c :: rest ∧ IsSeparator c

theorem Continues.length_lt {l k : String} (more : Continues l k) : k.length < l.length := by
  obtain ⟨c, rest, key, -⟩ := more
  rw [← String.length_toList, ← String.length_toList, key, List.length_append, List.length_cons]
  omega

namespace Step

/-- Of two keys neither continues the other. -/
def Apart : Step → Step → Prop
  | key k, key l => ¬Continues l k ∧ ¬Continues k l
  | _, _ => True

theorem eq_of_bare_append {s t : Step} (joints : s.joint = t.joint) (apart : s.Apart t)
    {x y : List Char} (hx : Matching.continues x = true) (hy : Matching.continues y = true)
    (same : s.bare ++ x = t.bare ++ y) : s = t ∧ x = y := by
  -- What one key has more than the other begins with a separator.
  have longer {k l : String} {more x y : List Char} (hx : Matching.continues x = true)
      (apart : ¬Continues l k) (key : l.toList = k.toList ++ more) (rest : x = more ++ y) :
      more = [] := by
    cases more with
    | nil => rfl
    | cons c more =>
      have separator := Position.isSeparator_of_continues hx c (by simp [rest])
      exact absurd ⟨c, more, key, separator⟩ apart
  cases s with
  | index i =>
    cases t with
    | key l => exact absurd joints (by simp [joint])
    | index j =>
      obtain ⟨bares, rest⟩ :=
        Position.bare_cancel (s := .index i) (t := .index j) trivial trivial hx hy same
      exact ⟨eq_of_joint_bare rfl bares, rest⟩
  | key k =>
    cases t with
    | index j => exact absurd joints (by simp [joint])
    | key l =>
      rcases List.append_eq_append_iff.1 same with ⟨more, key, rest⟩ | ⟨more, key, rest⟩
      · obtain rfl := longer hx apart.1 key rest
        rw [List.append_nil] at key
        exact ⟨congrArg Step.key (String.toList_inj.1 key).symm, rest⟩
      · obtain rfl := longer hy apart.2 key rest
        rw [List.append_nil] at key
        exact ⟨congrArg Step.key (String.toList_inj.1 key), rest.symm⟩

end Step

namespace Value

/-- No two keys of one object, wherever it stands, are such that one continues the
other. -/
def KeysApart (root : Value) : Prop :=
  ∀ (p : Position) (k l : String), (root.at? (p ++ [.key k])).isSome = true →
    (root.at? (p ++ [.key l])).isSome = true → ¬Continues l k

theorem KeysApart.child {v c : Value} {s : Step} (apart : v.KeysApart)
    (found : v.child? s = some c) : c.KeysApart := by
  intro p k l hk hl
  apply apart (s :: p) k l
  · rwa [List.cons_append, at?_cons, found]
  · rwa [List.cons_append, at?_cons, found]

theorem KeysApart.apart {v a b : Value} {s t : Step} (apart : v.KeysApart)
    (hs : v.child? s = some a) (ht : v.child? t = some b) : s.Apart t := by
  have here {r : Step} {c : Value} (found : v.child? r = some c) :
      (v.at? ([] ++ [r])).isSome = true := by
    simp [at?_cons, at?_nil, found]
  cases s with
  | index i => trivial
  | key k =>
    cases t with
    | index j => trivial
    | key l => exact ⟨apart [] k l (here hs) (here ht), apart [] l k (here ht) (here hs)⟩

theorem keysApart_of_children {v : Value}
    (here : ∀ k l a b, v.child? (.key k) = some a → v.child? (.key l) = some b → ¬Continues l k)
    (below : ∀ s c, v.child? s = some c → c.KeysApart) : v.KeysApart := by
  intro p k l hk hl
  cases p with
  | nil =>
    obtain ⟨a, ha⟩ := Option.isSome_iff_exists.1 hk
    obtain ⟨b, hb⟩ := Option.isSome_iff_exists.1 hl
    apply here k l a b
    · simpa [at?_cons, at?_nil] using ha
    · simpa [at?_cons, at?_nil] using hb
  | cons s p =>
    rw [List.cons_append, at?_cons] at hk hl
    cases found : v.child? s with
    | none => simp [found] at hk
    | some c =>
      rw [found] at hk hl
      exact below s c found p k l hk hl

theorem keysApart_of_scalar {v : Value} (bare : v.isContainer = false) : v.KeysApart := by
  have childless (s : Step) : v.child? s = none := by
    cases v <;> first | rfl | exact absurd bare (by simp [isContainer, isObject, isArray])
  apply keysApart_of_children
  · intro k l a b found
    rw [childless] at found
    cases found
  · intro s c found
    rw [childless] at found
    cases found

theorem keysApart_array {items : List Value} (below : ∀ v ∈ items, v.KeysApart) :
    (array items).KeysApart := by
  apply keysApart_of_children
  · intro k l a b found
    cases found
  · intro s c found
    cases s with
    | key k => cases found
    | index i => exact below c (List.mem_of_getElem? found)

theorem keysApart_object {entries : List (String × Value)}
    (here : ∀ e ∈ entries, ∀ f ∈ entries, ¬Continues f.1 e.1)
    (below : ∀ e ∈ entries, e.2.KeysApart) : (object entries).KeysApart := by
  have mem {k : String} {v : Value} (found : entries.lookup k = some v) : (k, v) ∈ entries := by
    obtain ⟨before, after, rfl, -⟩ := List.lookup_eq_some_iff.1 found
    simp
  apply keysApart_of_children
  · intro k l a b hk hl
    exact here (k, a) (mem hk) (l, b) (mem hl)
  · intro s c found
    cases s with
    | index i => cases found
    | key k => exact below (k, c) (mem found)

theorem joint_eq_of_child? {v a b : Value} {s t : Step} (hs : v.child? s = some a)
    (ht : v.child? t = some b) : s.joint = t.joint := by
  cases v with
  | object entries =>
    cases s with
    | index i => cases hs
    | key k =>
      cases t with
      | index j => cases ht
      | key l => rfl
  | array items =>
    cases s with
    | key k => cases hs
    | index i =>
      cases t with
      | key l => cases ht
      | index j => rfl
  | text _ | number _ | boolean _ | null => cases hs

theorem exists_child? {v : Value} {s : Step} {p : Position}
    (valid : (v.at? (s :: p)).isSome = true) :
    ∃ c, v.child? s = some c ∧ (c.at? p).isSome = true := by
  rw [at?_cons] at valid
  cases found : v.child? s with
  | none => simp [found] at valid
  | some c => exact ⟨c, rfl, by simpa [found] using valid⟩

theorem eq_of_chars {v : Value} (apart : v.KeysApart) {p q : Position}
    (hp : (v.at? p).isSome = true) (hq : (v.at? q).isSome = true)
    (same : p.flatMap Step.chars = q.flatMap Step.chars) : p = q := by
  induction p generalizing v q with
  | nil =>
    cases q with
    | nil => rfl
    | cons t q => simp [Step.chars] at same
  | cons s p ih =>
    cases q with
    | nil => simp [Step.chars] at same
    | cons t q =>
      obtain ⟨a, hs, hp⟩ := exists_child? hp
      obtain ⟨b, ht, hq⟩ := exists_child? hq
      simp only [List.flatMap_cons, Step.chars, List.cons_append] at same
      obtain ⟨rfl, rest⟩ := Step.eq_of_bare_append (joint_eq_of_child? hs ht)
        (apart.apart hs ht) (Position.continues_chars p) (Position.continues_chars q)
        (List.cons.inj same).2
      obtain rfl := Option.some.inj (hs.symm.trans ht)
      exact congrArg (s :: ·) (ih (apart.child hs) hp hq rest)

theorem toList_path_of_at? {root : Value} (closed : ∀ k, root.at? [.key "", .key k] = none)
    {s : Step} {p : Position} (valid : (root.at? (s :: p)).isSome = true) :
    (Position.path (s :: p)).toList = s.lead "" ++ (s.bare ++ p.flatMap Step.chars) := by
  rw [← List.append_assoc]
  by_cases started : s.extend "" = ""
  · obtain rfl := s.extend_eq_empty_iff.1 started
    cases p with
    | nil => simp [Position.path, Step.extend, Step.lead, Step.bare]
    | cons t p =>
      cases t with
      | key k =>
        rw [show Step.key "" :: .key k :: p = [.key "", .key k] ++ p from rfl, at?_append,
          closed k] at valid
        cases valid
      | index i =>
        have behind := Position.toList_foldl_extend
          (Step.extend_ne_empty (s := .index i) trivial "") p
        simpa [Position.path, Step.extend, Step.chars, Step.joint, Step.lead, Step.bare,
          Number.naturalText] using behind
  · exact Position.toList_path_of_started started p

theorem path_injective {root : Value} (apart : root.KeysApart)
    (closed : ∀ k, root.at? [.key "", .key k] = none) {p q : Position}
    (hp : p ≠ [] ∧ (root.at? p).isSome = true) (hq : q ≠ [] ∧ (root.at? q).isSome = true)
    (same : p.path = q.path) : p = q := by
  obtain ⟨s, p, rfl⟩ := List.exists_cons_of_ne_nil hp.1
  obtain ⟨t, q, rfl⟩ := List.exists_cons_of_ne_nil hq.1
  obtain ⟨a, hs, hp'⟩ := exists_child? hp.2
  obtain ⟨b, ht, hq'⟩ := exists_child? hq.2
  have joints := joint_eq_of_child? hs ht
  have leads : s.lead "" = t.lead "" := by
    cases s <;> cases t <;> simp_all [Step.lead, Step.joint]
  have texts := congrArg String.toList same
  rw [toList_path_of_at? closed hp.2, toList_path_of_at? closed hq.2, leads] at texts
  obtain ⟨rfl, rest⟩ := Step.eq_of_bare_append joints (apart.apart hs ht)
    (Position.continues_chars p) (Position.continues_chars q) (List.append_cancel_left texts)
  obtain rfl := Option.some.inj (hs.symm.trans ht)
  exact congrArg (s :: ·) (eq_of_chars (apart.child hs) hp' hq' rest)

end Value

end DescriptorCheck
