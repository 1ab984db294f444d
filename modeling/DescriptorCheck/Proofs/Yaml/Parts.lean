import DescriptorCheck.Proofs.Json.Reading
import DescriptorCheck.Yaml.Document

set_option autoImplicit false

namespace DescriptorCheck.Yaml
open Json (bind_eq_ok_iff)

namespace Datum

/-- What stands in a datum at any depth: the datum itself, the items of sequences and
the values of entries. Tags are passed over. -/
inductive Holds : Datum → Datum → Prop
  | self (d : Datum) : Holds d d
  | item {items : List Datum} {d e : Datum} :
      d ∈ items → Holds d e → Holds (sequence items) e
  | entry {entries : List (Datum × Datum)} {entry : Datum × Datum} {e : Datum} :
      entry ∈ entries → Holds entry.2 e → Holds (mapping entries) e
  | content {name : String} {d e : Datum} : Holds d e → Holds (tagged name d) e

def Throughout (P : List (Datum × Datum) → Prop) (d : Datum) : Prop :=
  ∀ entries, d.Holds (mapping entries) → P entries

def IsScalar : Datum → Prop
  | null | boolean _ | integer _ | float _ | text _ => True
  | sequence _ | mapping _ | tagged _ _ => False

@[elab_as_elim]
theorem induction_on_parts {motive : Datum → Prop} (d : Datum)
    (scalar : ∀ d, d.IsScalar → motive d)
    (sequence : ∀ items, (∀ d ∈ items, motive d) → motive (sequence items))
    (mapping : ∀ entries, (∀ entry ∈ entries, motive entry.2) → motive (mapping entries))
    (tagged : ∀ name content, motive content → motive (tagged name content)) : motive d :=
  match d with
  | null | boolean _ | integer _ | float _ | text _ => scalar _ trivial
  | .sequence items => sequence items fun d mem =>
    have := List.sizeOf_lt_of_mem mem
    induction_on_parts d scalar sequence mapping tagged
  | .mapping entries => mapping entries fun (key, d) mem =>
    have : sizeOf d < sizeOf entries := by
      have := List.sizeOf_lt_of_mem mem
      simp only [Prod.mk.sizeOf_spec] at this
      omega
    induction_on_parts d scalar sequence mapping tagged
  | .tagged name content =>
    tagged name content (induction_on_parts content scalar sequence mapping tagged)
termination_by sizeOf d

section Throughout

variable {P : List (Datum × Datum) → Prop} {d : Datum} {items : List Datum}
  {entries : List (Datum × Datum)}

theorem IsScalar.throughout (scalar : d.IsScalar) : d.Throughout P := by
  intro entries held
  cases held <;> exact scalar.elim

theorem throughout_sequence_iff :
    (sequence items).Throughout P ↔ ∀ d ∈ items, d.Throughout P := by
  constructor
  · exact fun all d mem entries held => all entries (.item mem held)
  · rintro all entries (_ | ⟨mem, held⟩)
    exact all _ mem entries held

theorem throughout_mapping_iff :
    (mapping entries).Throughout P ↔ P entries ∧ ∀ entry ∈ entries, entry.2.Throughout P := by
  constructor
  · intro all
    exact ⟨all entries (.self _), fun entry mem below held => all below (.entry mem held)⟩
  · rintro ⟨here, all⟩ below (_ | _ | ⟨mem, held⟩)
    · exact here
    · exact all _ mem below held

theorem throughout_tagged_iff {name : String} :
    (tagged name d).Throughout P ↔ d.Throughout P := by
  constructor
  · exact fun all entries held => all entries (.content held)
  · rintro all entries (_ | _ | _ | held)
    exact all entries held

end Throughout

/-- Every datum that a composition returns has the property. -/
def Yields {α : Type} (c : Composition α) (P : α → Prop) : Prop :=
  ∀ count a left, c.run count = .ok (a, left) → P a

namespace Yields

variable {α β : Type} {P : α → Prop} {Q : β → Prop}

theorem lift {e : Except Error α} (holds : ∀ a, e = .ok a → P a) :
    Yields (liftM e : Composition α) P := by
  rintro count a left done
  cases e with
  | error fault => cases done
  | ok b =>
    cases done
    exact holds a rfl

theorem pure {a : α} (holds : P a) : Yields (pure a) P := by
  rintro count b left done
  cases done
  exact holds

theorem bind {c : Composition α} {f : α → Composition β} (first : Yields c P)
    (next : ∀ a, P a → Yields (f a) Q) : Yields (c >>= f) Q := by
  intro count b left done
  rw [StateT.run_bind] at done
  obtain ⟨⟨a, between⟩, ran, done⟩ := bind_eq_ok_iff.1 done
  exact next a (first count a between ran) between b left done

theorem mapM {g : α → Composition β} (each : ∀ a, Yields (g a) Q) (xs : List α) :
    Yields (xs.mapM g) fun ys => ∀ y ∈ ys, Q y := by
  induction xs with
  | nil => exact pure nofun
  | cons x rest ih =>
    rw [List.mapM_cons]
    refine (each x).bind fun y here => ih.bind fun ys there => pure ?_
    exact List.forall_mem_cons.2 ⟨here, there⟩

end Yields

theorem isScalar_of_mem_map {α : Type} {a? : Option α} {f : α → Datum}
    (scalar : ∀ a, (f a).IsScalar) : ∀ d ∈ a?.map f, d.IsScalar := by
  intro d mem
  obtain ⟨a, -, rfl⟩ := Option.map_eq_some_iff.1 mem
  exact scalar a

theorem isScalar_of_integer? {text : String} {d? : Option Datum}
    (done : Scalar.integer? text = .ok d?) : ∀ d ∈ d?, d.IsScalar := by
  unfold Scalar.integer? at done
  repeat' split at done
  all_goals cases done
  all_goals simp [IsScalar]

theorem isScalar_of_ofPlain {text : String} {d : Datum} (done : Scalar.ofPlain text = .ok d) :
    d.IsScalar := by
  unfold Scalar.ofPlain at done
  split at done
  · cases done
    trivial
  split at done
  · cases done
    trivial
  obtain ⟨d?, known, done⟩ := bind_eq_ok_iff.1 done
  cases d? with
  | some e =>
    cases done
    exact isScalar_of_integer? known d rfl
  | none =>
    dsimp only at done
    split at done
    · cases done
      trivial
    · cases done
      cases Scalar.float? text <;> trivial

theorem isScalar_of_expect {text : String} {d? : Option Datum} {d : Datum}
    (scalar : ∀ d ∈ d?, d.IsScalar) (done : Scalar.expect text d? = .ok d) : d.IsScalar := by
  cases d? with
  | none => cases done
  | some e =>
    cases done
    exact scalar d rfl

theorem isScalar_of_resolve {tag? : Option Tag} {text : String} {plain : Bool} {d : Datum}
    (done : Scalar.resolve tag? text plain = .ok d) : d.IsScalar := by
  have untagged : (if plain then Scalar.ofPlain text else .ok (.text text)) = .ok d →
      d.IsScalar := by
    intro done
    split at done
    · exact isScalar_of_ofPlain done
    · cases done
      trivial
  unfold Scalar.resolve at done
  dsimp only at done
  split at done
  · exact untagged done
  split at done
  · exact untagged done
  split at done
  · exact isScalar_of_expect (isScalar_of_mem_map (by simp [IsScalar])) done
  split at done
  · obtain ⟨d?, known, done⟩ := bind_eq_ok_iff.1 done
    exact isScalar_of_expect (isScalar_of_integer? known) done
  split at done
  · exact isScalar_of_expect (isScalar_of_mem_map (by simp [IsScalar])) done
  split at done
  · refine isScalar_of_expect ?_ done
    split <;> simp [IsScalar]
  · cases done
    trivial

/-- No mapping in a datum has a key twice. -/
def KeysDiffer : Datum → Prop := Throughout fun entries => keysDiffer entries = true

theorem KeysDiffer.withTag {d : Datum} (differ : d.KeysDiffer) (tag? : Option Tag) :
    (withTag tag? d).KeysDiffer := by
  unfold Datum.withTag
  split
  · exact throughout_tagged_iff.2 differ
  · exact differ

theorem yields_ofAny {root : Node} {content : Node → Composition Datum}
    (each : ∀ n, Yields (content n) KeysDiffer) (n : Node) :
    Yields (ofAny root content n) KeysDiffer := by
  have followed : Yields (follow root n) fun _ => True := fun _ _ _ _ => trivial
  exact followed.bind fun target _ => (each target).bind fun d differ =>
    .pure (differ.withTag target.tag?)

theorem yields_ofContent (root : Node) (depth : Nat) (n : Node) :
    Yields (ofContent root depth n) KeysDiffer := by
  -- A collection is composed from nodes that may be nested one level less.
  induction depth generalizing n with
  | zero =>
    cases n with
    | scalar p text plain => exact .lift fun d done => (isScalar_of_resolve done).throughout
    | reference | sequence | mapping => exact fun _ _ _ done => nomatch done
  | succ depth ih =>
    cases n with
    | scalar p text plain => exact .lift fun d done => (isScalar_of_resolve done).throughout
    | reference target => exact fun _ _ _ done => nomatch done
    | sequence p items =>
      rw [ofContent, ← bind_pure_comp]
      exact (Yields.mapM (yields_ofAny ih) items).bind fun ds differ =>
        .pure (throughout_sequence_iff.2 differ)
    | mapping p entries =>
      have pair (entry : Node × Node) : Yields (do
          let key ← ofAny root (ofContent root depth) entry.1
          let d ← ofAny root (ofContent root depth) entry.2
          return (key, d)) fun pair => pair.2.KeysDiffer :=
        (yields_ofAny ih entry.1).bind fun key _ => (yields_ofAny ih entry.2).bind fun d differ =>
          .pure differ
      rw [ofContent]
      refine (Yields.mapM pair entries).bind fun pairs below => .lift fun d done => ?_
      unfold ofEntries at done
      split at done
      · rename_i apart
        cases done
        exact throughout_mapping_iff.2 ⟨apart, below⟩
      · cases done

end Datum

theorem keysDiffer_readDatum {text : String} {d : Datum} (read : readDatum text = .ok d) :
    d.KeysDiffer := by
  obtain ⟨tokens, -, read⟩ := bind_eq_ok_iff.1 read
  obtain ⟨root?, -, read⟩ := bind_eq_ok_iff.1 read
  cases root? with
  | none =>
    cases read
    exact Datum.IsScalar.throughout trivial
  | some root =>
    dsimp only at read
    rw [StateT.run'_eq] at read
    cases composed : (Datum.ofNode root Node.depthLimit root).run 0 with
    | error e => simp [composed] at read
    | ok result =>
      obtain rfl : result.1 = d := by simpa [composed] using read
      exact Datum.yields_ofAny (Datum.yields_ofContent root Node.depthLimit) root 0 _ _ composed

end DescriptorCheck.Yaml
