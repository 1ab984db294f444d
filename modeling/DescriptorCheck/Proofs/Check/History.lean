import DescriptorCheck.Proofs.Check.Report
import Mathlib.Data.List.DropRight

set_option autoImplicit false

/-! The induction is on the calls from the last one back, as what a call clears, settles or
answers is told by the calls before it. -/
namespace DescriptorCheck

inductive Call where
  | record (message : String)
  | settle
  | clear
  | verdict
  | verdictBecause (reason : String)
deriving DecidableEq

namespace Call

def message? : Call → Option String
  | record message => some message
  | _ => none

end Call

namespace Context

def perform (c : Context) : Call → Context × Except String Unit
  | .record message => (c.record message, .ok ())
  | .settle => (c.settle, .ok ())
  | .clear => (c.clear, .ok ())
  | .verdict => (c, c.findings.verdict)
  | .verdictBecause reason => (c, c.findings.verdictBecause reason)

def after (c : Context) (calls : List Call) : Context :=
  calls.foldl (fun c call => (c.perform call).1) c

/-- Each call with the messages that it finds pending. -/
def trace (c : Context) : List Call → List (Call × List String)
  | [] => []
  | call :: rest => (call, c.findings.pending) :: trace (c.perform call).1 rest

def sinceClear (c : Context) (calls : List Call) : List (Call × List String) :=
  (c.trace calls).rtakeWhile (·.1 != .clear)

def recordedMessages (c : Context) (calls : List Call) : List String :=
  (c.sinceClear calls).filterMap (·.1.message?)

/-- The messages of each settling call that found some pending. -/
def settledBlocks (c : Context) (calls : List Call) : List (List String) :=
  ((c.sinceClear calls).filter fun entry => entry.1 = .settle ∧ entry.2 ≠ []).map Prod.snd

variable (c : Context) (calls : List Call)

theorem after_concat (call : Call) :
    c.after (calls ++ [call]) = ((c.after calls).perform call).1 := by
  simp [after]

theorem trace_concat (call : Call) :
    c.trace (calls ++ [call]) = c.trace calls ++ [(call, (c.after calls).findings.pending)] := by
  induction calls generalizing c with
  | nil => rfl
  | cons first rest ih => exact congrArg ((first, c.findings.pending) :: ·) (ih (c.perform first).1)

theorem sinceClear_clear : c.sinceClear (calls ++ [.clear]) = [] := by
  rw [sinceClear, trace_concat]
  exact List.rtakeWhile_concat_neg _ _ _ (by simp)

theorem sinceClear_concat {call : Call} (kept : call ≠ .clear) :
    c.sinceClear (calls ++ [call]) =
      c.sinceClear calls ++ [(call, (c.after calls).findings.pending)] := by
  rw [sinceClear, trace_concat]
  exact List.rtakeWhile_concat_pos _ _ _ (by simpa using kept)

theorem recordedMessages_concat {call : Call} (kept : call ≠ .clear) :
    c.recordedMessages (calls ++ [call]) = c.recordedMessages calls ++ call.message?.toList := by
  rw [recordedMessages, sinceClear_concat c calls kept, List.filterMap_append]
  cases told : call.message? <;> simp [recordedMessages, told]

theorem settledBlocks_concat {call : Call} (kept : call ≠ .clear) :
    c.settledBlocks (calls ++ [call]) = c.settledBlocks calls ++
      if call = .settle ∧ (c.after calls).findings.pending ≠ []
        then [(c.after calls).findings.pending] else [] := by
  rw [settledBlocks, sinceClear_concat c calls kept, List.filter_append, List.map_append]
  by_cases found : call = .settle ∧ (c.after calls).findings.pending ≠ []
  · simp [settledBlocks, found]
  · rw [if_neg found, List.filter_singleton, decide_eq_false found]
    rfl

end Context

namespace Findings

/-- Findings that hold exactly these messages, those of the blocks in the report. -/
structure Holds (f : Findings) (messages : List String) (blocks : List (List String)) : Prop where
  messages_eq : blocks.flatten ++ f.pending = messages
  report_eq : f.report = joinBlocks blocks
  failed_iff : f.failed = true ↔ blocks ≠ []

variable {f : Findings} {messages : List String} {blocks : List (List String)}

theorem holds_none : none.Holds [] [] := ⟨rfl, rfl, by simp [none]⟩

theorem Holds.record (holds : f.Holds messages blocks) (message : String) :
    (f.record message).Holds (messages ++ [message]) blocks where
  messages_eq := by rw [← holds.messages_eq, List.append_assoc]; rfl
  report_eq := holds.report_eq
  failed_iff := holds.failed_iff

theorem Holds.settle (holds : f.Holds messages blocks) :
    f.settle.Holds messages (blocks ++ if f.pending ≠ [] then [f.pending] else []) := by
  by_cases pending : f.pending = []
  · have unchanged : f.settle = f := by simp [Findings.settle, pending]
    rw [unchanged, if_neg (not_not_intro pending), List.append_nil]
    exact holds
  · have moved : f.settle = ⟨[], f.report ++ block f.pending, true⟩ := by
      simp [Findings.settle, pending]
    rw [moved, if_pos pending]
    refine ⟨?_, ?_, by simp⟩
    · simpa using holds.messages_eq
    · rw [joinBlocks_concat, holds.report_eq]

theorem Holds.report_ne_empty_iff (holds : f.Holds messages blocks) :
    f.report ≠ "" ↔ blocks ≠ [] := by
  rw [holds.report_eq, ne_eq, joinBlocks_eq_empty_iff]

end Findings

namespace Context

theorem holds_concat {c : Context} {calls : List Call}
    (holds : (c.after calls).findings.Holds (c.recordedMessages calls) (c.settledBlocks calls))
    (call : Call) : (c.after (calls ++ [call])).findings.Holds
      (c.recordedMessages (calls ++ [call])) (c.settledBlocks (calls ++ [call])) := by
  by_cases cleared : call = .clear
  · subst cleared
    rw [after_concat, recordedMessages, settledBlocks, sinceClear_clear]
    exact Findings.holds_none
  rw [after_concat, recordedMessages_concat c calls cleared, settledBlocks_concat c calls cleared]
  cases call with
  | record message => simpa [Call.message?, perform, record] using holds.record message
  | settle => simpa [Call.message?, perform, settle] using holds.settle
  | clear => exact absurd rfl cleared
  | verdict | verdictBecause _ => simpa [Call.message?, perform] using holds

theorem holds_after {c : Context} (fresh : c.findings = .none) (calls : List Call) :
    (c.after calls).findings.Holds (c.recordedMessages calls) (c.settledBlocks calls) := by
  induction calls using List.reverseRecOn with
  | nil =>
    change c.findings.Holds [] []
    rw [fresh]
    exact Findings.holds_none
  | append_singleton calls call ih => exact holds_concat ih call

theorem settledBlocks_ne_nil_iff (c : Context) (calls : List Call) :
    c.settledBlocks calls ≠ [] ↔ ∃ found ≠ [], (Call.settle, found) ∈ c.sinceClear calls := by
  rw [settledBlocks, ne_eq, List.map_eq_nil_iff, List.filter_eq_nil_iff]
  constructor
  · intro some
    push Not at some
    obtain ⟨⟨call, found⟩, mem, accepted⟩ := some
    obtain ⟨rfl, nonempty⟩ := of_decide_eq_true accepted
    exact ⟨found, nonempty, mem⟩
  · rintro ⟨found, nonempty, mem⟩ none
    exact none _ mem (decide_eq_true ⟨rfl, nonempty⟩)

/-- How a history of calls shows in the findings and in what both verdicts answer. -/
structure Tells (start : Context) (calls : List Call) : Prop where
  messages : (start.settledBlocks calls).flatten ++ (start.after calls).findings.pending =
    start.recordedMessages calls
  report : (start.after calls).findings.report =
    String.join ((start.settledBlocks calls).map fun messages =>
      "Error(s) occurred:\n" ++ String.join (messages.map (· ++ "\n")))
  failed_iff_report : (start.after calls).findings.failed = true ↔
    (start.after calls).findings.report ≠ ""
  failed_iff_settled : (start.after calls).findings.failed = true ↔
    ∃ found ≠ [], (Call.settle, found) ∈ start.sinceClear calls
  verdict : (start.after calls).perform .verdict = (start.after calls,
    if (start.after calls).findings.failed then .error (start.after calls).findings.report
    else .ok ())
  verdictBecause : ∀ reason, (start.after calls).perform (.verdictBecause reason) =
    (start.after calls, if (start.after calls).findings.failed
      then .error (reason ++ "\n" ++ (start.after calls).findings.report) else .ok ())

theorem findings_tell_history (mode : Mode) (calls : List Call) :
    Tells ⟨mode, .none⟩ calls := by
  have holds := holds_after (c := ⟨mode, .none⟩) rfl calls
  exact {
    messages := holds.messages_eq
    report := holds.report_eq
    failed_iff_report := holds.failed_iff.trans holds.report_ne_empty_iff.symm
    failed_iff_settled := holds.failed_iff.trans (settledBlocks_ne_nil_iff _ calls)
    verdict := rfl
    verdictBecause := fun _ => rfl }

/-- A block is cleared, two more are settled between idle calls, and a message is left. -/
theorem findings_tell_history_on_two_blocks :
    let start : Context := ⟨.negate, .none⟩
    let calls : List Call := [.record "a", .settle, .clear, .settle, .record "b", .record "c",
      .verdict, .settle, .settle, .record "d", .settle, .record "e", .verdictBecause "why"]
    let report := "Error(s) occurred:\nb\nc\n" ++ "Error(s) occurred:\nd\n"
    start.recordedMessages calls = ["b", "c", "d", "e"] ∧
    (start.after calls).findings.pending = ["e"] ∧
    (start.after calls).findings.report = report ∧
    (start.after calls).findings.failed = true ∧
    (start.after calls).perform .verdict = (start.after calls, .error report) ∧
    (start.after calls).perform (.verdictBecause "so") =
      (start.after calls, .error ("so\n" ++ report)) := by
  intro start calls report
  have tells := findings_tell_history .negate calls
  have blocks : start.settledBlocks calls = [["b", "c"], ["d"]] := by decide
  have recorded : start.recordedMessages calls = ["b", "c", "d", "e"] := by decide
  have left : (start.after calls).findings.pending = ["e"] := by
    have messages := tells.messages
    rw [blocks, recorded] at messages
    exact (List.append_right_inj ["b", "c", "d"]).1 messages
  have told : (start.after calls).findings.report = report := by
    rw [tells.report, blocks]
    decide +kernel
  have failed : (start.after calls).findings.failed = true :=
    tells.failed_iff_report.2 (by rw [told]; decide)
  refine ⟨recorded, left, told, failed, ?_, ?_⟩
  · rw [tells.verdict, failed, told]
    rfl
  · rw [tells.verdictBecause, failed, told]
    rfl

end Context

end DescriptorCheck
