import DescriptorCheck.CommandLine.Arguments
import DescriptorCheck.Proofs.Text.Span
import Mathlib.Data.List.Nodup
import Mathlib.Data.List.TakeWhile

set_option autoImplicit false

namespace DescriptorCheck.CommandLine

/-- The ways in which a switch and its value are written. -/
inductive Spells (s : Switch) : String → List String → Prop
  | joined (v : String) (takes : s.takesValue = true) :
    Spells s v ["--" ++ s.long ++ "=" ++ v]
  | spaced (v : String) (takes : s.takesValue = true) (valued : looksLikeSwitch v = false) :
    Spells s v ["--" ++ s.long, v]
  | bare (takes : s.takesValue = false) : Spells s "" ["--" ++ s.long]
  | letter (c : Char) (known : s.letter? = some c) (v : String) (takes : s.takesValue = true)
    (valued : looksLikeSwitch v = false) : Spells s v ["-" ++ String.singleton c, v]
  | attached (c : Char) (known : s.letter? = some c) (v : String) (takes : s.takesValue = true)
    (some_text : v ≠ "") (plain : v.toList.head? ≠ some '=') :
    Spells s v ["-" ++ String.singleton c ++ v]
  | assigned (c : Char) (known : s.letter? = some c) (v : String) (takes : s.takesValue = true) :
    Spells s v ["-" ++ String.singleton c ++ "=" ++ v]
  | bareLetter (c : Char) (known : s.letter? = some c) (takes : s.takesValue = false) :
    Spells s "" ["-" ++ String.singleton c]

/-- The arguments that write these switches one after the other. -/
inductive SpellsAll : Given → List String → Prop
  | nil : SpellsAll [] []
  | cons {s : Switch} {v : String} {part args : List String} {given : Given}
    (first : Spells s v part) (others : SpellsAll given args) :
    SpellsAll ((s, v) :: given) (part ++ args)

def written (s : Switch) (values : List String) : Given := values.map fun v => (s, v)

namespace Given

theorem values_append (given others : Given) (s : Switch) :
    (given ++ others).values s = given.values s ++ others.values s := by
  simp [values]

theorem values_written (s t : Switch) (vs : List String) :
    (written t vs).values s = if t = s then vs else [] := by
  by_cases same : t = s <;>
    simp [values, written, List.filter_map, Function.comp_def, same]

theorem values_perm {given others : Given} (ordered : given.Perm others) (s : Switch) :
    (given.values s).Perm (others.values s) := (ordered.filter _).map _

theorem has_eq (given : Given) (s : Switch) : given.has s = !(given.values s).isEmpty := by
  induction given with
  | nil => rfl
  | cons o given ih =>
    by_cases same : o.1 = s
    · simp [has, values, same]
    · simpa [has, values, same] using ih

end Given

/-- No switch is given twice that may not be repeated. -/
def Given.Single (given : Given) : Prop :=
  ∀ s : Switch, s.repeats = false → (given.values s).length ≤ 1

theorem find?_of_unique {α : Type} {p : α → Bool} {xs : List α} {a : α} (mem : a ∈ xs)
    (holds : p a = true) (unique : ∀ b, p b = true → b = a) : xs.find? p = some a := by
  cases found : xs.find? p with
  | none =>
    have fails := List.find?_eq_none.1 found a mem
    exact absurd holds fails
  | some b => rw [unique b (List.find?_some found)]

section Names

variable {known : List Switch} {s : Switch} (mem : s ∈ known)

include mem

theorem find?_long : (known.find? fun t => t.long.toList == s.long.toList) = some s := by
  apply find?_of_unique mem
  · simp
  · intro t same
    revert same
    cases s <;> cases t <;> decide

theorem find?_letter {c : Char} (letter : s.letter? = some c) :
    (known.find? fun t => t.letter? == some c) = some s := by
  apply find?_of_unique mem
  · simp [letter]
  · intro t same
    rw [← letter] at same
    revert same letter
    cases s <;> cases t <;> simp [Switch.letter?]

end Names

theorem equals_not_mem_long (s : Switch) : '=' ∉ s.long.toList := by
  cases s <;> decide

theorem readLong_joined {known : List Switch} {s : Switch} (mem : s ∈ known)
    (takes : s.takesValue = true) (given : Given) (v : String) :
    readLong known given (s.long.toList ++ '=' :: v.toList) =
      (given.add s v).map fun given => (given, none) := by
  have kept := Text.bne_of_not_mem (equals_not_mem_long s)
  have ends : ('=' != '=') = false := rfl
  unfold readLong
  simp only [Text.takeWhile_append_cons kept ends, Text.dropWhile_append_cons kept ends,
    find?_long mem, takes, if_true, String.ofList_toList]
  rfl

theorem readLong_alone {known : List Switch} {s : Switch} (mem : s ∈ known) (given : Given) :
    readLong known given s.long.toList =
      if s.takesValue then .ok (given, some s)
      else (given.add s "").map fun given => (given, none) := by
  have kept := Text.bne_of_not_mem (equals_not_mem_long s)
  have all : s.long.toList.takeWhile (· != '=') = s.long.toList :=
    List.takeWhile_eq_self_iff.2 kept
  have nothing : s.long.toList.dropWhile (· != '=') = [] :=
    List.dropWhile_eq_nil_iff.2 kept
  unfold readLong
  simp only [all, nothing, find?_long mem]
  rfl

theorem Given.add_of_fresh {given : Given} {s : Switch} {v : String}
    (runs : s ≠ .version ∧ s ≠ .help) (fresh : s.repeats = true ∨ given.has s = false) :
    given.add s v = .ok (given ++ [(s, v)]) := by
  have kept : (given.has s && !s.repeats) = false := by
    rcases fresh with repeats | absent
    · simp [repeats]
    · simp [absent]
  cases s <;> simp_all [Given.add]

theorem readSwitches_complete {known : List Switch} {given more : Given} {arg : String}
    (read : readArgument known given arg = .ok (some (more, none))) (named : arg ≠ "--")
    (rest : List String) :
    readSwitches known given (arg :: rest) = readSwitches known more rest := by
  rw [readSwitches, read]
  · rfl
  · exact named

theorem readSwitches_pending {known : List Switch} {given : Given} {arg v : String} {s : Switch}
    (read : readArgument known given arg = .ok (some (given, some s))) (named : arg ≠ "--")
    (valued : looksLikeSwitch v = false) (runs : s ≠ .version ∧ s ≠ .help)
    (fresh : s.repeats = true ∨ given.has s = false) (rest : List String) :
    readSwitches known given (arg :: v :: rest) =
      readSwitches known (given ++ [(s, v)]) rest := by
  rw [readSwitches, read]
  · simp only [bind, Except.bind, valued, Bool.false_eq_true, if_false,
      Given.add_of_fresh runs fresh]
  · exact named

theorem readArgument_long {arg : String} {cs : List Char} (written : arg.toList = '-' :: '-' :: cs)
    (known : List Switch) (given : Given) :
    readArgument known given arg = (readLong known given cs).map some := by
  simp only [readArgument, written]

theorem readArgument_letter {arg : String} {c : Char} {cs : List Char}
    (written : arg.toList = '-' :: c :: cs) (letter : c ≠ '-') (known : List Switch)
    (given : Given) :
    readArgument known given arg = (readLetters known given (c :: cs)).map some := by
  simp only [readArgument, written]

theorem letter_ne_dash {s : Switch} {c : Char} (letter : s.letter? = some c) : c ≠ '-' := by
  rintro rfl
  revert letter
  cases s <;> decide

theorem readLetters_attached {known : List Switch} {s : Switch} (mem : s ∈ known) {c : Char}
    (letter : s.letter? = some c) (takes : s.takesValue = true) {v : String} (some_text : v ≠ "")
    (plain : v.toList.head? ≠ some '=') (given : Given) :
    readLetters known given (c :: v.toList) = (given.add s v).map fun given => (given, none) := by
  obtain ⟨cs, rfl⟩ := String.exists_eq_ofList v
  rw [String.toList_ofList] at plain ⊢
  cases cs with
  | nil => exact absurd rfl some_text
  | cons c' cs =>
    have other : c' ≠ '=' := fun same => plain (congrArg some same)
    simp only [readLetters, find?_letter mem letter, takes, if_true]
    split
    · contradiction
    · rename_i same
      exact absurd (List.cons.inj same).1 other
    · rfl

theorem ne_dashes {arg : String} {c : Char} {cs : List Char} (written : arg.toList = '-' :: c :: cs)
    (names : c ≠ '-' ∨ cs ≠ []) : arg ≠ "--" := by
  rintro rfl
  obtain ⟨-, rfl, rfl⟩ : '-' = '-' ∧ '-' = c ∧ [] = cs := by simpa using written
  simp at names

theorem readSwitches_spells {known : List Switch} {s : Switch} {v : String} {part : List String}
    (spells : Spells s v part) (mem : s ∈ known) (runs : s ≠ .version ∧ s ≠ .help) {given : Given}
    (fresh : s.repeats = true ∨ given.has s = false) (rest : List String) :
    readSwitches known given (part ++ rest) = readSwitches known (given ++ [(s, v)]) rest := by
  have added (v : String) : given.add s v = .ok (given ++ [(s, v)]) :=
    Given.add_of_fresh runs fresh
  have long : s.long.toList ≠ [] := by cases s <;> decide
  cases spells with
  | joined v takes =>
    have written : ("--" ++ s.long ++ "=" ++ v).toList =
        '-' :: '-' :: (s.long.toList ++ '=' :: v.toList) := by simp
    apply readSwitches_complete _ (ne_dashes written (.inr (by simp)))
    rw [readArgument_long written, readLong_joined mem takes, added]
    rfl
  | spaced v takes valued =>
    have written : ("--" ++ s.long).toList = '-' :: '-' :: s.long.toList := by simp
    apply readSwitches_pending _ (ne_dashes written (.inr long)) valued runs fresh
    rw [readArgument_long written, readLong_alone mem, if_pos takes]
    rfl
  | bare takes =>
    have written : ("--" ++ s.long).toList = '-' :: '-' :: s.long.toList := by simp
    apply readSwitches_complete _ (ne_dashes written (.inr long))
    rw [readArgument_long written, readLong_alone mem, takes, if_neg Bool.false_ne_true, added]
    rfl
  | letter c letter v takes valued =>
    have written : ("-" ++ String.singleton c).toList = ['-', c] := by simp
    have other := letter_ne_dash letter
    apply readSwitches_pending _ (ne_dashes written (.inl other)) valued runs fresh
    rw [readArgument_letter written other]
    simp only [readLetters, find?_letter mem letter, takes, if_true]
    rfl
  | attached c letter v takes some_text plain =>
    have written : ("-" ++ String.singleton c ++ v).toList = '-' :: c :: v.toList := by simp
    have other := letter_ne_dash letter
    apply readSwitches_complete _ (ne_dashes written (.inl other))
    rw [readArgument_letter written other,
      readLetters_attached mem letter takes some_text plain, added]
    rfl
  | assigned c letter v takes =>
    have written : ("-" ++ String.singleton c ++ "=" ++ v).toList =
        '-' :: c :: '=' :: v.toList := by simp
    have other := letter_ne_dash letter
    apply readSwitches_complete _ (ne_dashes written (.inl other))
    rw [readArgument_letter written other]
    simp only [readLetters, find?_letter mem letter, takes, if_true, String.ofList_toList, added]
    rfl
  | bareLetter c letter takes =>
    have written : ("-" ++ String.singleton c).toList = ['-', c] := by simp
    have other := letter_ne_dash letter
    apply readSwitches_complete _ (ne_dashes written (.inl other))
    rw [readArgument_letter written other]
    simp only [readLetters, find?_letter mem letter, takes, Bool.false_eq_true, if_false, added]
    rfl

theorem Given.Single.fresh {given others : Given} {s : Switch} {v : String}
    (single : (given ++ (s, v) :: others).Single) : s.repeats = true ∨ given.has s = false := by
  cases repeats : s.repeats with
  | true => exact .inl rfl
  | false =>
    have once := single s repeats
    have here : (values ((s, v) :: others) s).length = (others.values s).length + 1 := by
      simp [values]
    rw [values_append, List.length_append, here] at once
    have none : given.values s = [] := List.length_eq_zero_iff.1 (by omega)
    right
    rw [has_eq, none]
    rfl

theorem readSwitches_spellsAll {known : List Switch} {others : Given} {args : List String}
    (spells : SpellsAll others args)
    (ordinary : ∀ o ∈ others, o.1 ∈ known ∧ o.1 ≠ .version ∧ o.1 ≠ .help) (given : Given)
    (single : (given ++ others).Single) (rest : List String) :
    readSwitches known given (args ++ rest) = readSwitches known (given ++ others) rest := by
  -- What was read before grows along the list, so `single` is about both together.
  induction spells generalizing given with
  | nil => rw [List.append_nil, List.nil_append]
  | @cons s v part args others first further ih =>
    obtain ⟨mem, runs⟩ := ordinary (s, v) List.mem_cons_self
    rw [List.append_assoc, readSwitches_spells first mem runs single.fresh,
      ih (fun o mem => ordinary o (List.mem_cons_of_mem _ mem)) _ (by simpa using single)]
    simp

def flag (b : Bool) : List String := if b then [""] else []

theorem isEmpty_flag (b : Bool) : (!(flag b).isEmpty) = b := by
  cases b <;> rfl

namespace Command

def name : Command → String
  | paths _ _ => "paths"
  | check _ => "check"

def switches : Command → List Switch
  | paths _ _ => pathsSwitches
  | check _ => checkSwitches

/-- What a command asks to be given with a switch of its own. -/
def valuesOf : Command → Switch → List String
  | paths node _, .pathBeginning => node.toList
  | paths _ json, .json => flag json
  | check a, .node => [a.node]
  | check a, .negate => flag a.negated
  | check a, .tag => a.tags
  | check a, .contains => a.contained
  | check a, .equals => a.equalled
  | check a, .property => a.properties
  | check a, .reason => a.reason.toList
  | _, _ => []

def options (command : Command) : Given :=
  command.switches.flatMap fun s => written s (command.valuesOf s)

theorem values_options (command : Command) (s : Switch) :
    command.options.values s = command.valuesOf s := by
  cases command <;> cases s <;>
    simp [options, switches, pathsSwitches, checkSwitches, valuesOf, Given.values_append,
      Given.values_written]

theorem length_valuesOf (command : Command) {s : Switch} (single : s.repeats = false) :
    (command.valuesOf s).length ≤ 1 := by
  have flags (b : Bool) : (flag b).length ≤ 1 := by cases b <;> decide
  have options (o : Option String) : o.toList.length ≤ 1 := by cases o <;> simp
  cases command <;> cases s <;> first | contradiction | simp [valuesOf, flags, options]

end Command

/-- The same command, but for the order of the values of one switch. -/
inductive Command.Alike : Command → Command → Prop
  | paths (node : Option String) (json : Bool) : Alike (.paths node json) (.paths node json)
  | check {a b : Assertion} (node : a.node = b.node) (negated : a.negated = b.negated)
    (tags : a.tags.Perm b.tags) (contained : a.contained.Perm b.contained)
    (equalled : a.equalled.Perm b.equalled) (properties : a.properties.Perm b.properties)
    (reason : a.reason = b.reason) : Alike (.check a) (.check b)

/-- Only switches that are known with every command. -/
def IsGeneral (given : Given) : Prop := ∀ o ∈ given, o.1 = .file ∨ o.1 = .verbose

theorem isGeneral_nil : IsGeneral [] := fun _ mem => nomatch mem

theorem single_nil : Given.Single [] := fun _ _ => Nat.zero_le 1

/-- The arguments ask for a command on a file: its switches stand behind its name in any
order, and the file is told there or in front of the name. -/
inductive AsksFor : List String → Option String → Command → Prop
  | intro {front general back : Given} {before behind : List String} (command : Command)
    (isGeneral_front : IsGeneral front) (single_front : front.Single)
    (spells_front : SpellsAll front before)
    (isGeneral : IsGeneral general) (single : general.Single)
    (ordered : back.Perm (command.options ++ general)) (spells : SpellsAll back behind) :
    AsksFor (before ++ command.name :: behind)
      ((general.value? .file).or (front.value? .file)) command

theorem AsksFor.behind (command : Command) (back : Given) {general : Given} {args : List String}
    (isGeneral : IsGeneral general) (single : general.Single)
    (ordered : back.Perm (command.options ++ general)) (spells : SpellsAll back args) :
    AsksFor (command.name :: args) (general.value? .file) command := by
  have asks : AsksFor (command.name :: args) ((general.value? .file).or none) command :=
    .intro command isGeneral_nil single_nil .nil isGeneral single ordered spells
  rwa [Option.or_none] at asks

theorem exists_spellsAll {given : Given}
    (flags : ∀ o ∈ given, o.1.takesValue = false → o.2 = "") : ∃ args, SpellsAll given args := by
  induction given with
  | nil => exact ⟨[], .nil⟩
  | cons o given ih =>
    obtain ⟨s, v⟩ := o
    obtain ⟨args, spells⟩ := ih fun o mem => flags o (List.mem_cons_of_mem _ mem)
    cases takes : s.takesValue with
    | true => exact ⟨_, .cons (.joined v takes) spells⟩
    | false =>
      obtain rfl : v = "" := flags (s, v) List.mem_cons_self takes
      exact ⟨_, .cons (.bare takes) spells⟩

theorem exists_asksFor (command : Command) (file : Option String) :
    ∃ args, AsksFor args file command := by
  have isGeneral : IsGeneral (written .file file.toList) := by
    intro o mem
    obtain ⟨v, -, rfl⟩ := List.mem_map.1 mem
    exact .inl rfl
  have single : Given.Single (written .file file.toList) := by
    intro s _
    rw [Given.values_written]
    cases file <;> split <;> simp
  have flags : ∀ o ∈ command.options ++ written .file file.toList,
      o.1.takesValue = false → o.2 = "" := by
    intro o mem takes
    rcases List.mem_append.1 mem with own | of_general
    · obtain ⟨s, -, held⟩ := List.mem_flatMap.1 own
      obtain ⟨v, valued, rfl⟩ := List.mem_map.1 held
      cases command <;> cases s <;> simp_all [Command.valuesOf, flag, Switch.takesValue]
    · obtain ⟨v, -, rfl⟩ := List.mem_map.1 of_general
      cases takes
  obtain ⟨args, spells⟩ := exists_spellsAll flags
  have asks := AsksFor.behind command _ isGeneral single (.refl _) spells
  rw [Given.value?, Given.values_written, if_pos rfl] at asks
  cases file <;> exact ⟨_, asks⟩

theorem eq_of_perm_short {xs ys : List String} (ordered : xs.Perm ys) (short : ys.length ≤ 1) :
    xs = ys := by
  match ys with
  | [] => exact ordered.eq_nil
  | [y] => exact List.perm_singleton.1 ordered
  | _ :: _ :: _ =>
    simp only [List.length_cons] at short
    omega

theorem value?_file_of_ordered {given general : Given} {command : Command}
    (ordered : given.Perm (command.options ++ general)) (single : general.Single) :
    given.value? .file = general.value? .file := by
  have reordered := Given.values_perm ordered .file
  have own : command.options.values .file = [] := by
    rw [Command.values_options]
    cases command <;> rfl
  rw [Given.values_append, own, List.nil_append] at reordered
  rw [Given.value?, Given.value?, eq_of_perm_short reordered (single .file rfl)]

section Asking

variable {given general : Given} {command : Command} (isGeneral : IsGeneral general)
  (ordered : given.Perm (command.options ++ general))

include isGeneral

theorem values_of_isGeneral {s : Switch} (own : s ≠ .file ∧ s ≠ .verbose) :
    general.values s = [] := by
  have absent : general.filter (·.1 = s) = [] := by
    rw [List.filter_eq_nil_iff]
    intro o mem same
    obtain rfl : o.1 = s := by simpa using same
    rcases isGeneral o mem with file | verbose
    · exact own.1 file
    · exact own.2 verbose
  rw [Given.values, absent]
  rfl

theorem reads_isGeneral {known : List Switch} (file : .file ∈ known) (verbose : .verbose ∈ known) :
    ∀ o ∈ general, o.1 ∈ known ∧ o.1 ≠ .version ∧ o.1 ≠ .help := by
  intro o mem
  rcases isGeneral o mem with same | same <;> rw [same]
  · exact ⟨file, by decide, by decide⟩
  · exact ⟨verbose, by decide, by decide⟩

include ordered

theorem values_perm_valuesOf {s : Switch} (own : s ≠ .file ∧ s ≠ .verbose) :
    (given.values s).Perm (command.valuesOf s) := by
  have reordered := Given.values_perm ordered s
  rwa [Given.values_append, values_of_isGeneral isGeneral own, List.append_nil,
    Command.values_options] at reordered

theorem values_eq_valuesOf {s : Switch} (own : s ≠ .file ∧ s ≠ .verbose)
    (single : s.repeats = false) : given.values s = command.valuesOf s :=
  eq_of_perm_short (values_perm_valuesOf isGeneral ordered own) (command.length_valuesOf single)

theorem single_of_ordered (single : general.Single) : given.Single := by
  intro s once
  have size := (Given.values_perm ordered s).length_eq
  rw [Given.values_append, List.length_append, Command.values_options] at size
  by_cases own : s ≠ .file ∧ s ≠ .verbose
  · have few := command.length_valuesOf once
    rw [values_of_isGeneral isGeneral own, List.length_nil] at size
    omega
  · have none : command.valuesOf s = [] := by
      cases s <;> simp_all [Command.valuesOf]
    have few := single s once
    rw [none, List.length_nil] at size
    omega

theorem reads_ordered : ∀ o ∈ given, o.1 ∈ command.switches ∧ o.1 ≠ .version ∧ o.1 ≠ .help := by
  intro o mem
  rcases List.mem_append.1 (ordered.mem_iff.1 mem) with own | of_general
  · obtain ⟨s, known, held⟩ := List.mem_flatMap.1 own
    obtain ⟨v, valued, rfl⟩ := List.mem_map.1 held
    refine ⟨known, ?_⟩
    cases command <;> cases s <;> simp_all [Command.valuesOf]
  · apply reads_isGeneral isGeneral _ _ o of_general
    · cases command <;> simp [Command.switches, pathsSwitches, checkSwitches]
    · cases command <;> simp [Command.switches, pathsSwitches, checkSwitches]

end Asking

theorem exists_assertionOf {given general : Given} {a : Assertion} (isGeneral : IsGeneral general)
    (ordered : given.Perm ((Command.check a).options ++ general)) :
    ∃ b, assertionOf given = .ok b ∧ (Command.check b).Alike (.check a) := by
  have node : given.values .node = [a.node] :=
    values_eq_valuesOf isGeneral ordered (by decide) rfl
  have negated : given.values .negate = flag a.negated :=
    values_eq_valuesOf isGeneral ordered (by decide) rfl
  have reason : given.values .reason = a.reason.toList :=
    values_eq_valuesOf isGeneral ordered (by decide) rfl
  refine ⟨_, by rw [assertionOf, Given.value?, node]; rfl, ?_⟩
  constructor
  · rfl
  · rw [Given.has_eq, negated, isEmpty_flag]
  · exact values_perm_valuesOf isGeneral ordered (by decide)
  · exact values_perm_valuesOf isGeneral ordered (by decide)
  · exact values_perm_valuesOf isGeneral ordered (by decide)
  · exact values_perm_valuesOf isGeneral ordered (by decide)
  · rw [Given.value?, reason]
    cases a.reason <;> rfl

theorem readAllSwitches_of_ordered {given general : Given} {command : Command} {args : List String}
    (isGeneral : IsGeneral general) (single : general.Single)
    (ordered : given.Perm (command.options ++ general)) (spells : SpellsAll given args) :
    readAllSwitches command.switches args = .ok given := by
  have read := readSwitches_spellsAll spells (reads_ordered isGeneral ordered) []
    (single_of_ordered isGeneral ordered single) []
  rw [List.append_nil, List.nil_append] at read
  rw [readAllSwitches, read]
  rfl

theorem readSwitches_name (command : Command) (given : Given) (rest : List String) :
    readSwitches generalSwitches given (command.name :: rest) =
      .ok (given, command.name :: rest) := by
  have other : readArgument generalSwitches given command.name = .ok none := by
    cases command <;> simp [Command.name, readArgument]
  rw [readSwitches, other]
  · rfl
  · cases command <;> simp [Command.name]

theorem read_of_asksFor {args : List String} {file : Option String} {command : Command}
    (asks : AsksFor args file command) :
    ∃ verbose other, other.Alike command ∧ read args = .ok ⟨file, verbose, other⟩ := by
  cases asks with
  | @intro front general back before behind command isGeneral_front single_front spells_front
      isGeneral single ordered spells =>
    have known : ∀ o ∈ front, o.1 ∈ generalSwitches ∧ o.1 ≠ .version ∧ o.1 ≠ .help :=
      reads_isGeneral isGeneral_front (by decide) (by decide)
    have general_read := readSwitches_spellsAll spells_front known [] single_front
      (command.name :: behind)
    rw [List.nil_append, readSwitches_name] at general_read
    have own_read := readAllSwitches_of_ordered isGeneral single ordered spells
    rw [← value?_file_of_ordered ordered single]
    refine ⟨back.has .verbose || front.has .verbose, ?_⟩
    cases command with
    | paths node json =>
      have node_read : back.values .pathBeginning = node.toList :=
        values_eq_valuesOf isGeneral ordered (by decide) rfl
      have json_read : back.values .json = flag json :=
        values_eq_valuesOf isGeneral ordered (by decide) rfl
      refine ⟨.paths node json, .paths node json, ?_⟩
      have node_value : back.value? .pathBeginning = node := by
        rw [Given.value?, node_read]
        cases node <;> rfl
      have json_given : back.has .json = json := by
        rw [Given.has_eq, json_read, isEmpty_flag]
      simp only [Command.switches, Command.name] at own_read general_read ⊢
      simp only [read, general_read, own_read, node_value, json_given, bind, Except.bind, pure,
        Except.pure]
    | check a =>
      obtain ⟨b, asserted, alike⟩ := exists_assertionOf isGeneral ordered
      refine ⟨.check b, alike, ?_⟩
      simp only [Command.switches, Command.name] at own_read general_read ⊢
      simp only [read, general_read, own_read, asserted, bind, Except.bind, pure, Except.pure]

end DescriptorCheck.CommandLine
