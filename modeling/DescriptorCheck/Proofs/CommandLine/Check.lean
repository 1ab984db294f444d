import DescriptorCheck.CommandLine.Run
import DescriptorCheck.Proofs.Check.Pointwise
import DescriptorCheck.Proofs.Check.Refusals
import DescriptorCheck.Proofs.CommandLine.Arguments
import DescriptorCheck.Proofs.Document.Loading

set_option autoImplicit false

namespace DescriptorCheck

def Chain.anded {P : Type} (p : P) (ps : List P) : Chain P :=
  ps.foldl (fun before p => .next before .and p) (.first p)

theorem Chain.predicates_foldl_next {P : Type} (c : Chain P) (ps : List P) :
    (ps.foldl (fun before p => .next before .and p) c).predicates = c.predicates ++ ps := by
  induction ps generalizing c with
  | nil => exact (List.append_nil _).symm
  | cons p rest ih => rw [List.foldl_cons, ih, Chain.predicates, List.append_assoc]; rfl

theorem Chain.joints_foldl_next {P : Type} {c : Chain P} (joined : ∀ j ∈ c.joints, j = .and)
    (ps : List P) :
    ∀ j ∈ (ps.foldl (fun before p => .next before .and p) c).joints, j = .and := by
  induction ps generalizing c with
  | nil => exact joined
  | cons p rest ih =>
    apply ih
    intro j mem
    rcases List.mem_append.1 mem with before | last
    · exact joined j before
    · exact List.mem_singleton.1 last

theorem Query.checkAll_cons (q : Query) (p : Predicate) (rest : List Predicate) :
    q.checkAll (p :: rest) = (q.check p).bind fun r =>
      if rest = [] then .ok r else (r.joined .and).checkAll rest := by
  cases rest with
  | nil => cases checked : q.check p <;> simp [checkAll, checked, Except.bind]
  | cons p' rest => cases checked : q.check p <;> simp [checkAll, checked, bind, Except.bind]

theorem Query.run_foldl_next (q : Query) (c : Chain Predicate) (ps : List Predicate) :
    q.run (ps.foldl (fun before p => .next before .and p) c) = (q.run c).bind fun r =>
      if ps = [] then .ok r else (r.joined .and).checkAll ps := by
  induction ps generalizing c with
  | nil => cases ran : q.run c <;> simp [ran, Except.bind]
  | cons p rest ih =>
    rw [List.foldl_cons, ih]
    change ((q.run c).bind fun t => (t.joined .and).check p).bind _ = _
    cases ran : q.run c with
    | error refusal => rfl
    | ok r => simp [Except.bind, checkAll_cons]

theorem Query.checkAll_eq_run (q : Query) (p : Predicate) (ps : List Predicate) :
    q.checkAll (p :: ps) = q.run (.anded p ps) := by
  rw [checkAll_cons, Chain.anded, run_foldl_next]
  rfl

theorem BlankArgument.first?_append (given others : List (Argument × String)) :
    first? (given ++ others) = (first? given).or (first? others) := by
  induction given with
  | nil => rfl
  | cons one rest ih =>
    obtain ⟨argument, text⟩ := one
    simp only [List.cons_append, first?, ih]
    split <;> rfl

theorem BlankArgument.error_message (refusal : BlankArgument) :
    "Error: " ++ refusal.message ++ "\n" =
      "Error: invalid argument: '" ++ refusal.argument.name ++ "' must not be blank\n" := by
  change "Error: " ++ ("invalid argument: '" ++ refusal.argument.name ++ "' must not be blank")
    ++ "\n" = _
  generalize refusal.argument.name = name
  -- The texts are cut at other places, so they are compared as characters.
  simp [← String.toList_inj]

theorem Query.refusal?_eq_first? (ps : List Predicate) :
    analyzer.refusal? ps = BlankArgument.first? (ps.flatMap Predicate.arguments) := by
  induction ps with
  | nil => rfl
  | cons p rest ih =>
    rw [← List.singleton_append, Analyzer.refusal?_append, Analyzer.refusal?_singleton, ih,
      List.flatMap_append, BlankArgument.first?_append]
    simp only [List.flatMap_cons, List.flatMap_nil, List.append_nil]
    rfl

/-- The checker that a run of `check` amounts to. It asks nothing about files. -/
def Checker.ofElements (elements : List Element) (matching : Matching) : Checker :=
  ⟨elements.toArray, matching, ⟨fun _ => false, fun _ => false⟩, ""⟩

/-- Predicates that are joined with `and` are refused for their first blank argument,
and pass if an element is left that all of them admit, or if none is left that should not
be. -/
theorem Query.checkAll_outcome (elements : List Element) (matching : Matching) (node : String)
    (o : Opening) {ps : List Predicate} (some_predicate : ps ≠ [])
    (pointwise : ∀ p ∈ ps, p.isPointwise = true) :
    let q := (Query.start node elements.toArray matching).opened o
    match BlankArgument.first? (ps.flatMap Predicate.arguments) with
    | some refusal => q.checkAll ps = .error refusal
    | none => ∃ r, q.checkAll ps = .ok r ∧ (r.verdict = .ok () ↔
        match o with
        | .should => elements.filter (fun e => ps.all fun p => p.admits matching node e) ≠ []
        | .shouldNot =>
          elements.filter (fun e => ps.all fun p => p.admits matching node e) = []) := by
  intro q
  obtain ⟨p, rest, rfl⟩ := List.exists_cons_of_ne_nil some_predicate
  have predicates : (Chain.anded p rest).predicates = p :: rest :=
    Chain.predicates_foldl_next (.first p) rest
  have joined : ∀ j ∈ (Chain.anded p rest).joints, j = .and :=
    Chain.joints_foldl_next (by simp [Chain.joints]) rest
  have opened : q = analyzer.withContext (Query.start node elements.toArray matching)
      ⟨o.mode, .none⟩ := by
    cases o <;> rfl
  rw [checkAll_eq_run, ← refusal?_eq_first?]
  split
  · -- A blank argument refuses the chain wherever it stands and whatever was found.
    rename_i refusal refused
    have ran := analyzer.run_eq (Query.start node elements.toArray matching) o.mode
      (Chain.anded p rest)
    rw [predicates, refused, ← opened] at ran
    exact ran
  · rename_i accepted
    have spelt : ∀ p' ∈ p :: rest, p'.IsSpelt := (analyzer.refusal?_eq_none_iff _).1 accepted
    rw [← predicates] at pointwise spelt
    obtain ⟨r, ran, -, verdict⟩ :=
      (Checker.ofElements elements matching).pointwise_outcome (some node) o _ pointwise spelt
    refine ⟨r, ran, verdict.trans ?_⟩
    have left : elements.filter (fun e => (p :: rest).all fun p => p.admits matching node e) ≠ [] ↔
        ∃ e ∈ elements, ∀ p' ∈ p :: rest, p'.admits matching node e = true := by
      rw [Ne, List.filter_eq_nil_iff]
      simp
    rw [Chain.length_of_joined_and joined, List.take_length, predicates]
    cases o with
    | should => exact left.symm
    | shouldNot => exact (not_congr left.symm).trans not_not

namespace CommandLine

namespace Assertion

/-- The values of predicates under the names that refusals tell, in the order in which they
are checked. -/
def values (a : Assertion) : List (String × String) :=
  a.tags.map ("tag_name", ·) ++ a.contained.map ("value", ·) ++ a.equalled.map ("value", ·)
    ++ a.properties.map ("property_name", ·)

def given (a : Assertion) : List (Argument × String) :=
  a.tags.map (.tagName, ·) ++ a.contained.map (.value, ·) ++ a.equalled.map (.value, ·)
    ++ a.properties.map (.propertyName, ·)

theorem named_given (a : Assertion) : BlankArgument.named a.given = a.values := by
  simp only [BlankArgument.named, given, values, List.map_append, List.map_map]
  rfl

theorem flatMap_arguments_predicates (a : Assertion) :
    a.predicates.flatMap Predicate.arguments = a.given := by
  simp only [predicates, given, List.flatMap_append, List.flatMap_map, Predicate.arguments,
    ← List.map_eq_flatMap]

theorem verdict_eq_ok_iff (a : Assertion) (q : Query) :
    a.verdict q = .ok () ↔ q.verdict = .ok () := by
  unfold verdict
  cases a.reason with
  | none => rfl
  | some reason =>
    simp only [Query.verdictBecause, Query.verdict, Findings.verdictBecause, Findings.verdict]
    split <;> simp

theorem predicates_eq_nil_iff (a : Assertion) : a.predicates = [] ↔ a.values = [] := by
  simp [predicates, values]

theorem isPointwise_of_mem_predicates {a : Assertion} {p : Predicate} (mem : p ∈ a.predicates) :
    p.isPointwise = true := by
  simp only [predicates, List.mem_append, List.mem_map, or_assoc] at mem
  rcases mem with ⟨t, -, rfl⟩ | ⟨t, -, rfl⟩ | ⟨t, -, rfl⟩ | ⟨t, -, rfl⟩ <;> rfl

theorem first?_given_eq_none_iff (a : Assertion) :
    BlankArgument.first? a.given = none ↔ ∀ one ∈ a.values, ¬Text.OnlyBlanks one.2 := by
  rw [BlankArgument.first?_eq_none_iff_spelt, named_given]

theorem exists_first?_given {a : Assertion} (blank : ∃ one ∈ a.values, Text.OnlyBlanks one.2) :
    ∃ refusal, BlankArgument.first? a.given = some refusal ∧
      IsFirstBlank refusal.argument.name a.values := by
  obtain ⟨one, mem, blank⟩ := blank
  obtain ⟨refusal, first⟩ := Option.ne_none_iff_exists'.1 fun accepted =>
    (first?_given_eq_none_iff a).1 accepted one mem blank
  refine ⟨refusal, first, ?_⟩
  rw [← named_given]
  exact (BlankArgument.first?_eq_some_iff a.given refusal).1 first

/-- All predicates of the assertion admit the element. -/
def Admits (a : Assertion) (matching : Matching) (e : Element) : Prop :=
  (∀ t ∈ a.tags, (Predicate.tag t).admits matching a.node e = true) ∧
  (∀ t ∈ a.contained, (Predicate.contains t).admits matching a.node e = true) ∧
  (∀ t ∈ a.equalled, (Predicate.equals t).admits matching a.node e = true) ∧
  ∀ t ∈ a.properties, (Predicate.property t).admits matching a.node e = true

instance (a : Assertion) (matching : Matching) (e : Element) : Decidable (a.Admits matching e) :=
  inferInstanceAs (Decidable (_ ∧ _))

theorem all_predicates_iff (a : Assertion) (matching : Matching) (e : Element) :
    (a.predicates.all fun p => p.admits matching a.node e) = true ↔ a.Admits matching e := by
  simp [predicates, Admits]

end Assertion

theorem first?_map_of_perm {argument : Argument} {xs ys : List String} (ordered : xs.Perm ys) :
    BlankArgument.first? (xs.map (argument, ·)) = BlankArgument.first? (ys.map (argument, ·)) := by
  have first (zs : List String) : BlankArgument.first? (zs.map (argument, ·)) =
      if zs.any Text.isBlank then some ⟨argument⟩ else none := by
    induction zs with
    | nil => rfl
    | cons z zs ih =>
      rw [List.map_cons, BlankArgument.first?, ih]
      by_cases blank : Text.isBlank z = true <;> simp [blank]
  rw [first, first, ordered.any_eq]

/-- The elements that all predicates of an assertion admit. -/
def admitted (elements : List Element) (matching : Matching) (a : Assertion) : List Element :=
  elements.filter fun e => a.Admits matching e

section Alike

variable {a b : Assertion} (alike : (Command.check a).Alike (.check b))

include alike

theorem first?_given_of_alike :
    BlankArgument.first? a.given = BlankArgument.first? b.given := by
  cases alike with
  | check node negated tags contained equalled properties reason =>
    simp only [Assertion.given, BlankArgument.first?_append, first?_map_of_perm tags,
      first?_map_of_perm contained, first?_map_of_perm equalled, first?_map_of_perm properties]

theorem values_eq_nil_iff_of_alike : a.values = [] ↔ b.values = [] := by
  cases alike with
  | check node negated tags contained equalled properties reason =>
    have values := ((tags.map ("tag_name", ·)).append (contained.map ("value", ·))).append
      (equalled.map ("value", ·)) |>.append (properties.map ("property_name", ·))
    exact ⟨fun none => (none ▸ values : List.Perm [] _).nil_eq.symm,
      fun none => (none ▸ values : List.Perm _ []).eq_nil⟩

theorem admitted_of_alike (elements : List Element) (matching : Matching) :
    admitted elements matching a = admitted elements matching b := by
  cases alike with
  | check node negated tags contained equalled properties reason =>
    refine List.filter_congr fun e _ => decide_eq_decide.2 ?_
    simp only [Assertion.Admits, node, tags.mem_iff, contained.mem_iff, equalled.mem_iff,
      properties.mem_iff]

end Alike

/-- How a check ends: it is refused for the first blank value, or passes or fails for the
elements that are left. -/
def Outcome.Tells (o : Outcome) (a : Assertion) (left : List Element) : Prop :=
  match BlankArgument.first? a.given with
  | some refusal => o.code = 1 ∧ o.out = "" ∧ o.err = "Error: " ++ refusal.message ++ "\n"
  | none =>
    if a.negated = left.isEmpty then
      o.code = 0 ∧ o.out = "✓ " ++ a.node ++ " passed\n" ∧ o.err = ""
    else o.code = 1 ∧ o.out = ""

namespace Outcome.Tells

variable {o : Outcome} {a : Assertion} {left : List Element} (tells : o.Tells a left)

include tells

theorem refused (blank : ∃ one ∈ a.values, Text.OnlyBlanks one.2) :
    ∃ name, IsFirstBlank name a.values ∧ o.code = 1 ∧ o.out = "" ∧
      o.err = "Error: invalid argument: '" ++ name ++ "' must not be blank\n" := by
  obtain ⟨refusal, first, named⟩ := Assertion.exists_first?_given blank
  rw [Tells, first] at tells
  obtain ⟨code, out, err⟩ := tells
  exact ⟨refusal.argument.name, named, code, out, err.trans refusal.error_message⟩

theorem finished (spelt : ∀ one ∈ a.values, ¬Text.OnlyBlanks one.2) :
    if a.negated = left.isEmpty then
      o.code = 0 ∧ o.out = "✓ " ++ a.node ++ " passed\n" ∧ o.err = ""
    else o.code = 1 ∧ o.out = "" := by
  rwa [Tells, (Assertion.first?_given_eq_none_iff a).2 spelt] at tells

theorem code_eq : o.code =
    match BlankArgument.first? a.given with
    | some _ => 1
    | none => if a.negated = left.isEmpty then 0 else 1 := by
  unfold Tells at tells
  cases first : BlankArgument.first? a.given with
  | some refusal =>
    rw [first] at tells
    exact tells.1
  | none =>
    rw [first] at tells
    by_cases passes : a.negated = left.isEmpty
    · rw [if_pos passes] at tells ⊢
      exact tells.1
    · rw [if_neg passes] at tells ⊢
      exact tells.1

theorem code_of_spelt (spelt : ∀ one ∈ a.values, ¬Text.OnlyBlanks one.2) :
    o.code = if a.negated = left.isEmpty then 0 else 1 := by
  rw [tells.code_eq, (Assertion.first?_given_eq_none_iff a).2 spelt]

end Outcome.Tells

theorem runCheck_tells (elements : List Element) (matching : Matching) {a : Assertion}
    (some_value : a.values ≠ []) :
    (runCheck elements matching a).Tells a (admitted elements matching a) := by
  have some_predicate : a.predicates ≠ [] := fun none =>
    some_value ((Assertion.predicates_eq_nil_iff a).1 none)
  have outcome := Query.checkAll_outcome elements matching a.node a.opening some_predicate
    fun p mem => Assertion.isPointwise_of_mem_predicates mem
  have left : (elements.filter fun e => a.predicates.all fun p => p.admits matching a.node e) =
      admitted elements matching a :=
    List.filter_congr fun e _ =>
      Bool.eq_iff_iff.2 ((a.all_predicates_iff matching e).trans decide_eq_true_iff.symm)
  rw [Assertion.flatMap_arguments_predicates, left] at outcome
  unfold Outcome.Tells
  simp only [runCheck, if_neg (show ¬a.predicates.isEmpty = true by simpa using some_predicate)]
  revert outcome
  cases BlankArgument.first? a.given with
  | some refusal =>
    intro (refused : _ = Except.error refusal)
    simp only [refused]
    exact ⟨rfl, rfl, rfl⟩
  | none =>
    rintro ⟨r, checked, verdict⟩
    simp only [checked]
    have passes : r.verdict = .ok () ↔ a.negated = (admitted elements matching a).isEmpty := by
      rw [verdict, Assertion.opening]
      cases a.negated <;> simp
    cases told : a.verdict r with
    | ok =>
      rw [if_pos (passes.1 ((a.verdict_eq_ok_iff r).1 told))]
      exact ⟨rfl, rfl, rfl⟩
    | error report =>
      rw [if_neg fun same => by simpa [told] using (a.verdict_eq_ok_iff r).2 (passes.2 same)]
      exact ⟨rfl, rfl⟩

section Runs

variable (s : System Id)

def System.settings : Config := s.config.run.1

def System.loaded (file : Option String) : Except LoadError Document :=
  (s.document s.settings file).run.1

variable {s} {file : Option String} {d : Document} {args : List String}
  (loaded : s.loaded file = .ok d)

include loaded

theorem run_of_asksFor {command : Command} (asked : AsksFor args file command) :
    ∃ other verbose before, other.Alike command ∧
      (run s args).run = (runCommand s.settings (.ok d) other).logged verbose before := by
  obtain ⟨verbose, other, alike, read⟩ := read_of_asksFor asked
  refine ⟨other, verbose, s.config.run.2 ++ (s.document s.settings file).run.2, alike, ?_⟩
  rw [run, read, ← loaded]
  rfl

theorem run_check_of_asksFor {a : Assertion} (asked : AsksFor args file (.check a)) :
    ∃ b verbose before, (Command.check b).Alike (.check a) ∧ (run s args).run =
      (runCheck d.elements s.settings.pathMatching b).logged verbose before := by
  obtain ⟨other, verbose, before, alike, ran⟩ := run_of_asksFor loaded asked
  cases alike with
  | check node negated tags contained equalled properties reason =>
    exact ⟨_, verbose, before, .check node negated tags contained equalled properties reason, ran⟩

/-- What asking for a check comes to, whatever the order in which it is asked for. -/
theorem run_check_tells {a : Assertion} (some_value : a.values ≠ [])
    (asked : AsksFor args file (.check a)) :
    (run s args).run.Tells a (admitted d.elements s.settings.pathMatching a) := by
  obtain ⟨b, verbose, before, alike, ran⟩ := run_check_of_asksFor loaded asked
  have tells := runCheck_tells d.elements s.settings.pathMatching
    (mt (values_eq_nil_iff_of_alike alike).1 some_value)
  unfold Outcome.Tells at tells ⊢
  rw [first?_given_of_alike alike, admitted_of_alike alike] at tells
  cases alike with
  | check node negated =>
    rw [node, negated] at tells
    rw [ran]
    exact tells

/-- A check is refused for a blank value, which it names, and then prints nothing; else its
exit code tells whether an element is left that all predicates admit. So of a check and its
negation exactly one succeeds, and the order of the switches does not matter. `paths` prints
a line for each of the elements that the check has in scope. -/
theorem exit_code_of_check {a : Assertion} (some_value : a.values ≠ [])
    (asked : AsksFor args file (.check a)) :
    let matching := s.settings.pathMatching
    let left := admitted d.elements matching a
    let outcome args := (run s args).run
    ((∃ given ∈ a.values, Text.OnlyBlanks given.2) →
      ∃ name, IsFirstBlank name a.values ∧ (outcome args).code = 1 ∧ (outcome args).out = "" ∧
        (outcome args).err = "Error: invalid argument: '" ++ name ++ "' must not be blank\n") ∧
    ((∀ given ∈ a.values, ¬Text.OnlyBlanks given.2) →
      (a.negated = false → ((outcome args).code = 0 ↔ left ≠ [])) ∧
      (a.negated = true → ((outcome args).code = 0 ↔ left = [])) ∧
      ((outcome args).code = 0 ∧ (outcome args).out = "✓ " ++ a.node ++ " passed\n" ∧
          (outcome args).err = "" ∨
        (outcome args).code = 1 ∧ (outcome args).out = "") ∧
      ∀ others, AsksFor others file (.check { a with negated := !a.negated }) →
        ((outcome others).code = 0 ↔ (outcome args).code ≠ 0)) ∧
    (∀ others, AsksFor others file (.check a) → (outcome others).code = (outcome args).code) ∧
    ∀ json others, AsksFor others file (.paths (some a.node) json) →
      (outcome others).code = 0 ∧ (outcome others).err = "" ∧
      (outcome others).out = String.join
        ((d.elements.filter fun e =>
          (Query.start a.node d.elements.toArray matching).inScope e.path).map fun e =>
            (if json then
              String.ofList (Json.encode (.object [("path", .text e.path), ("value", e.value)]))
            else e.path ++ " = " ++ e.value.display) ++ "\n") := by
  intro matching left outcome
  have tells : (outcome args).Tells a left := run_check_tells loaded some_value asked
  refine ⟨tells.refused, ?_, ?_, ?_⟩
  · intro spelt
    have code := tells.code_of_spelt spelt
    refine ⟨?_, ?_, ?_, ?_⟩
    · intro affirmed
      rw [code, affirmed]
      simp
    · intro negated
      rw [code, negated]
      simp
    · have ends := tells.finished spelt
      split at ends
      · exact .inl ends
      · exact .inr ends
    · intro others asked'
      have opposed : (outcome others).Tells { a with negated := !a.negated } left :=
        run_check_tells loaded some_value asked'
      rw [code, opposed.code_of_spelt spelt]
      cases a.negated <;> cases left.isEmpty <;> simp
  · intro others asked'
    have again : (outcome others).Tells a left := run_check_tells loaded some_value asked'
    exact again.code_eq.trans tells.code_eq.symm
  · intro json others asked'
    obtain ⟨other, verbose, before, alike, ran⟩ := run_of_asksFor loaded asked'
    cases alike
    rw [show outcome others = _ from ran]
    exact ⟨rfl, rfl, rfl⟩

end Runs

/-- A check and its negation, a check with a blank value, and both forms of `paths`. -/
theorem exit_code_of_check_on_tag :
    let s : System Id := ⟨none, fun _ => Except.error .notFound,
      some (Text.toUtf8 "<a><b>1</b><c>2</c></a>")⟩
    let outcome args := (run s args).run
    (outcome ["check", "--tag=b", "--node", "b", "--equals=1"]).code = 0 ∧
    (outcome ["check", "--equals=1", "--not", "--tag=b", "--node", "b"]).code ≠ 0 ∧
    ((outcome ["check", "--property= ", "--tag=b", "--node", "b"]).code = 1 ∧
      (outcome ["check", "--property= ", "--tag=b", "--node", "b"]).out = "" ∧
      (outcome ["check", "--property= ", "--tag=b", "--node", "b"]).err =
        "Error: invalid argument: 'property_name' must not be blank\n") ∧
    (outcome ["paths", "--prefix=b"]).out = "b = 1\n" ∧
    (outcome ["paths", "--json", "--prefix=b"]).out =
      "\x7b\"path\":\"b\",\"value\":\"1\"\x7d\n" := by
  intro s outcome
  let a : Assertion := ⟨"b", false, ["b"], [], ["1"], [], none⟩
  let blank : Assertion := ⟨"b", false, ["b"], [], [], [" "], none⟩
  let d : Document :=
    ⟨.object [("b", .text "1"), ("c", .text "2")], some "<a><b>1</b><c>2</c></a>"⟩
  have parsed : Document.parse (Format.sniff "<a><b>1</b><c>2</c></a>") "<a><b>1</b><c>2</c></a>" =
      .ok d := by rfl
  have loaded : s.loaded none = .ok d := by
    change Document.ofInput (Text.toUtf8 "<a><b>1</b><c>2</c></a>") = _
    rw [Document.ofInput_toUtf8, parsed]
    rfl
  have asked : AsksFor ["check", "--tag=b", "--node", "b", "--equals=1"] none (.check a) :=
    AsksFor.behind (.check a) [(.tag, "b"), (.node, "b"), (.equals, "1")] isGeneral_nil
      single_nil (by decide)
      (.cons (.joined "b" rfl) (.cons (.spaced "b" rfl rfl) (.cons (.joined "1" rfl) .nil)))
  have negated : AsksFor ["check", "--equals=1", "--not", "--tag=b", "--node", "b"] none
      (.check { a with negated := true }) :=
    AsksFor.behind (.check { a with negated := true })
      [(.equals, "1"), (.negate, ""), (.tag, "b"), (.node, "b")] isGeneral_nil single_nil
      (by decide)
      (.cons (.joined "1" rfl) (.cons (.bare rfl) (.cons (.joined "b" rfl)
        (.cons (.spaced "b" rfl rfl) .nil))))
  have refused : AsksFor ["check", "--property= ", "--tag=b", "--node", "b"] none (.check blank) :=
    AsksFor.behind (.check blank) [(.property, " "), (.tag, "b"), (.node, "b")] isGeneral_nil
      single_nil (by decide)
      (.cons (.joined " " rfl) (.cons (.joined "b" rfl) (.cons (.spaced "b" rfl rfl) .nil)))
  have listed : AsksFor ["paths", "--prefix=b"] none (.paths (some "b") false) :=
    AsksFor.behind (.paths (some "b") false) [(.pathBeginning, "b")] isGeneral_nil single_nil
      (by decide) (.cons (.joined "b" rfl) .nil)
  have listed_json : AsksFor ["paths", "--json", "--prefix=b"] none (.paths (some "b") true) :=
    AsksFor.behind (.paths (some "b") true) [(.json, ""), (.pathBeginning, "b")] isGeneral_nil
      single_nil (by decide) (.cons (.bare rfl) (.cons (.joined "b" rfl) .nil))
  obtain ⟨-, spelt, -, paths⟩ := exit_code_of_check (a := a) loaded (by decide) asked
  obtain ⟨affirmed, -, -, opposed⟩ := spelt (by decide)
  have passed : (outcome ["check", "--tag=b", "--node", "b", "--equals=1"]).code = 0 :=
    (affirmed rfl).2 (by decide +kernel)
  obtain ⟨refusal, -⟩ := exit_code_of_check (a := blank) loaded (by decide) refused
  obtain ⟨name, first, told⟩ := refusal ⟨("property_name", " "), by decide, by decide⟩
  obtain rfl : name = "property_name" := by
    cases first with
    | here blank => exact absurd blank (by decide)
    | later _ first =>
      cases first with
      | here => rfl
      | later spelt => exact absurd (by decide) spelt
  refine ⟨passed, fun passed' => (opposed _ negated).1 passed' passed, told, ?_, ?_⟩
  · exact (paths false _ listed).2.2.trans (by decide +kernel)
  · exact (paths true _ listed_json).2.2.trans (by decide +kernel)

end CommandLine

end DescriptorCheck
