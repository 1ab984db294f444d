import DescriptorCheck.Proofs.Yaml.Figures
import DescriptorCheck.Proofs.Yaml.Nodes
import DescriptorCheck.Proofs.Yaml.Scanning

set_option autoImplicit false

namespace DescriptorCheck.Yaml
open Json (Form ItemForms EntryForms Script)

namespace Datum

/-- A composition that meets no alias. It succeeds with data of a kind, or fails because
a mapping has a key twice. -/
def Composes {α : Type} (c : Composition α) (differ : Prop) (P : α → Prop) : Prop :=
  ∀ count, (differ → ∃ a, c.run count = .ok (a, count) ∧ P a) ∧
    (¬differ → c.run count = .error .repeatedKey)

namespace Composes

variable {α β : Type} {P : α → Prop} {Q : β → Prop} {differ others : Prop}

theorem lift {e : Except Error α} (done : differ → ∃ a, e = .ok a ∧ P a)
    (fails : ¬differ → e = .error .repeatedKey) :
    Composes (liftM e : Composition α) differ P := by
  intro count
  constructor
  · intro here
    obtain ⟨a, rfl, holds⟩ := done here
    exact ⟨a, rfl, holds⟩
  · intro twice
    rw [fails twice]
    rfl

theorem pure {a : α} (holds : P a) : Composes (pure a) True P :=
  fun _ => ⟨fun _ => ⟨a, rfl, holds⟩, fun none => absurd trivial none⟩

theorem bind {c : Composition α} {f : α → Composition β} (first : Composes c differ P)
    (next : ∀ a, P a → Composes (f a) others Q) : Composes (c >>= f) (differ ∧ others) Q := by
  intro count
  obtain ⟨done, fails⟩ := first count
  rw [StateT.run_bind]
  by_cases here : differ
  · obtain ⟨a, ran, holds⟩ := done here
    obtain ⟨done, fails⟩ := next a holds count
    rw [ran]
    exact ⟨fun both => done both.2, fun twice => fails fun there => twice ⟨here, there⟩⟩
  · rw [fails here]
    exact ⟨fun both => absurd both.1 here, fun _ => rfl⟩

theorem map {c : Composition α} {f : α → β} (first : Composes c differ P)
    (holds : ∀ a, P a → Q (f a)) : Composes (f <$> c) differ Q := by
  have composes := first.bind fun a here => Composes.pure (holds a here)
  rw [bind_pure_comp] at composes
  rwa [and_true] at composes

variable {γ : Type} {x : γ} {xs : List γ} {g : γ → Composition β} {R : List β → Prop}

theorem mapM_cons {S : List β → Prop} (first : Composes (g x) differ Q)
    (behind : Composes (xs.mapM g) others R) (holds : ∀ b bs, Q b → R bs → S (b :: bs)) :
    Composes ((x :: xs).mapM g) (differ ∧ others) S := by
  rw [List.mapM_cons]
  refine first.bind fun b here => ?_
  have composes := behind.map fun bs there => holds b bs here there
  rwa [← bind_pure_comp] at composes

theorem mapM_singleton (first : Composes (g x) differ Q) (holds : ∀ b, Q b → R [b]) :
    Composes ([x].mapM g) differ R := by
  have nothing : Composes ([].mapM g) True (· = []) := .pure rfl
  have composes : Composes ([x].mapM g) (differ ∧ True) R :=
    first.mapM_cons nothing fun b bs here none => none ▸ holds b here
  rwa [and_true] at composes

end Composes

section

variable (root : Node) (depth : Nat)

theorem ofNode_bare {n : Node} (own : follow root n = pure n) (bare : n.tag? = none) :
    ofNode root depth n = ofContent root depth n := by
  simp [ofNode, ofAny, own, bare, withTag]

theorem ofNode_scalar (text : String) (plain : Bool) :
    ofNode root depth (.scalar .none text plain) =
      liftM (Scalar.resolve none text plain) := by
  rw [ofNode_bare root depth rfl rfl]
  cases depth <;> rfl

theorem ofNode_sequence (items : List Node) :
    ofNode root (depth + 1) (.sequence .none items) =
      sequence <$> items.mapM (ofNode root depth) :=
  ofNode_bare root (depth + 1) rfl rfl

def ofPair (entry : Node × Node) : Composition (Datum × Datum) := do
  let key ← ofNode root depth entry.1
  let d ← ofNode root depth entry.2
  return (key, d)

theorem ofNode_mapping (entries : List (Node × Node)) :
    ofNode root (depth + 1) (.mapping .none entries) =
      entries.mapM (ofPair root depth) >>= fun entries => liftM (ofEntries entries) :=
  ofNode_bare root (depth + 1) rfl rfl

theorem composes_scalar {text : String} {plain : Bool} {v : Value}
    (means : ∃ d, Scalar.resolve none text plain = .ok d ∧ d.toValue = v) :
    Composes (ofNode root depth (.scalar .none text plain)) True (·.toValue = v) := by
  rw [ofNode_scalar]
  exact .lift (fun _ => means) fun none => absurd trivial none

end

theorem composes_pair {root n : Node} {depth : Nat} {differ : Prop} {v : Value} (name : String)
    (composes : Composes (ofNode root depth n) differ (·.toValue = v)) :
    Composes (ofPair root depth (.scalar .none name false, n)) differ fun entry =>
      entry.1 = text name ∧ entry.2.toValue = v := by
  have named : Composes (ofNode root depth (.scalar .none name false)) True (· = text name) := by
    rw [ofNode_scalar]
    exact .pure rfl
  have both := named.bind fun key same => composes.bind fun d value =>
    Composes.pure (P := fun entry => entry.1 = text name ∧ entry.2.toValue = v) (a := (key, d))
      ⟨same, value⟩
  rwa [true_and, and_true] at both

theorem keysDiffer_iff {entries : List (Datum × Datum)} {names : List String}
    (keys : entries.map Prod.fst = names.map text) : keysDiffer entries = true ↔ names.Nodup := by
  induction entries generalizing names with
  | nil =>
    obtain rfl : names = [] := by simpa using keys.symm
    simp [keysDiffer]
  | cons entry rest ih =>
    obtain ⟨name, others, rfl, here, there⟩ := List.map_eq_cons_iff.1 keys.symm
    have known : rest.any (fun other => entry.1.same other.1) = others.contains name := by
      calc rest.any (fun other => entry.1.same other.1)
          = (rest.map Prod.fst).any (entry.1.same ·) := by rw [List.any_map]; rfl
        _ = (others.map text).any ((text name).same ·) := by rw [there, here]
        _ = others.contains name := by simp [Function.comp_def, same, List.any_beq]
    rw [keysDiffer, known, Bool.and_eq_true, ih there.symm, List.nodup_cons]
    simp

mutual

theorem composes_form {f : Form} (portable : f.IsPortable) {depth : Nat}
    (deep : f.depth ≤ depth) (root : Node) :
    Composes (ofNode root depth f.node) f.KeysDiffer (·.toValue = f.value) := by
  cases f with
  | word w => exact composes_scalar root depth (by cases w <;> exact ⟨_, rfl, rfl⟩)
  | number n => exact composes_scalar root depth (Scalar.ofPlain_number portable)
  | text t => exact composes_scalar root depth ⟨_, rfl, rfl⟩
  | emptyArray gap =>
    obtain ⟨depth, rfl⟩ := Nat.exists_eq_add_of_le' deep
    exact .pure rfl
  | array items =>
    obtain ⟨depth, rfl⟩ := Nat.exists_eq_add_of_le' (Nat.le_trans (Nat.le_add_left 1 _) deep)
    have composes := composes_items portable (Nat.le_of_succ_le_succ deep) root
    rw [Form.node, ofNode_sequence]
    exact composes.map fun ds values => congrArg Value.array values
  | emptyObject gap =>
    obtain ⟨depth, rfl⟩ := Nat.exists_eq_add_of_le' deep
    exact .pure rfl
  | object entries =>
    obtain ⟨depth, rfl⟩ := Nat.exists_eq_add_of_le' (Nat.le_trans (Nat.le_add_left 1 _) deep)
    have composes := composes_entries portable (Nat.le_of_succ_le_succ deep) root
    -- Keys are compared when all values are known: an inner fault is the first one.
    rw [Form.node, ofNode_mapping, Form.KeysDiffer, and_comm]
    refine composes.bind fun ds ⟨keys, same⟩ => ?_
    have differ := keysDiffer_iff keys
    refine .lift (fun nodup => ⟨.mapping ds, ?_, congrArg Value.ofEntries same⟩) fun twice => ?_
    · rw [ofEntries, if_pos (differ.2 nodup)]
    · rw [ofEntries, if_neg (mt differ.1 twice)]

theorem composes_items {items : ItemForms} (portable : items.IsPortable) {depth : Nat}
    (deep : items.depth ≤ depth) (root : Node) :
    Composes (items.nodes.mapM (ofNode root depth)) items.KeysDiffer
      (valuesOf · = items.values) := by
  cases items with
  | last before f behind =>
    refine (composes_form portable deep root).mapM_singleton fun d value => ?_
    simp [valuesOf, ItemForms.values, value]
  | more before f behind rest =>
    obtain ⟨here, further⟩ := Nat.max_le.1 deep
    refine (composes_form portable.1 here root).mapM_cons
      (composes_items portable.2 further root) fun d ds value values => ?_
    simp [valuesOf, ItemForms.values, value, values]

theorem composes_entries {entries : EntryForms} (portable : entries.IsPortable) {depth : Nat}
    (deep : entries.depth ≤ depth) (root : Node) :
    Composes (entries.nodes.mapM (ofPair root depth)) entries.KeysDiffer fun ds =>
      ds.map Prod.fst = (entries.entries.map Prod.fst).map text ∧
        entriesOf ds = entries.entries := by
  cases entries with
  | last before key gap f behind =>
    refine (composes_pair key.text.string
      (composes_form portable.2 deep root)).mapM_singleton fun d ⟨name, value⟩ => ?_
    simp [entriesOf, EntryForms.entries, name, value, toValue]
  | more before key gap f behind rest =>
    obtain ⟨here, further⟩ := Nat.max_le.1 deep
    refine (composes_pair key.text.string (composes_form portable.2.1 here root)).mapM_cons
      (composes_entries portable.2.2 further root) fun d ds ⟨name, value⟩ ⟨names, values⟩ => ?_
    simp [entriesOf, EntryForms.entries, name, value, names, values, toValue]

end

end Datum

theorem head_ne_mark (f : Form) (rest : List Char) :
    (f.chars ++ rest).head? ≠ some '\ufeff' := by
  cases f with
  | word w => cases w <;> simp [Form.chars, Json.Word.chars]
  | number n =>
    obtain ⟨d, digits, parts, digit⟩ := Json.Numeral.head_isDigit n.reads
    intro marked
    cases sign : n.negative <;> simp [Form.chars, Json.NumberForm.chars, sign, parts] at marked
    subst marked
    contradiction
  | text t => simp [Form.chars, Json.TextForm.chars]
  | emptyArray gap => simp [Form.chars]
  | array items => simp [Form.chars]
  | emptyObject gap => simp [Form.chars]
  | object entries => simp [Form.chars]

theorem dropByteOrderMark_script (s : Script) : dropByteOrderMark s.chars = s.chars := by
  have head : s.chars.head? ≠ some '\ufeff' := by
    obtain ⟨⟨blanks, blank⟩, f, behind⟩ := s
    cases blanks with
    | nil => exact head_ne_mark f _
    | cons c rest =>
      rintro ⟨⟩
      exact absurd (blank _ List.mem_cons_self) (by decide)
  unfold dropByteOrderMark
  split
  · rename_i rest marked
    simp [marked] at head
  · rfl

theorem readTokens_script {s : Script} (portable : s.IsPortable) :
    readTokens s.chars = .ok s.form.tokens := by
  have allowed : s.chars.find? (!isAllowed ·) = none := by
    simpa [List.find?_eq_none] using s.isAllowed portable
  rw [readTokens, allowed, Token.ofChars_script portable]

/-- A portable text means to YAML what it means to JSON, if no object has a key twice. -/
theorem read_script {s : Script} (portable : s.IsPortable) (deep : s.form.depth ≤ Node.depthLimit)
    {source : String} (written : s.chars = source.toList) :
    (s.form.KeysDiffer → read source = .ok s.form.value) ∧
      (¬s.form.KeysDiffer → read source = .error .repeatedKey) := by
  have read_eq : read source =
      ((Datum.ofNode s.form.node Node.depthLimit s.form.node).run' 0).map Datum.toValue := by
    unfold read readDatum
    rw [← written, dropByteOrderMark_script, readTokens_script portable]
    change ((Node.ofTokens s.form.tokens).bind _).map Datum.toValue = _
    rw [Node.ofTokens_form deep]
    rfl
  obtain ⟨done, fails⟩ := Datum.composes_form portable.form deep s.form.node 0
  rw [read_eq, StateT.run'_eq]
  constructor
  · intro differ
    obtain ⟨d, ran, value⟩ := done differ
    rw [ran, ← value]
    rfl
  · intro twice
    rw [fails twice]
    rfl

end DescriptorCheck.Yaml
