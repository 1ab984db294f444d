import DescriptorCheck.Check.Context

set_option autoImplicit false

namespace DescriptorCheck

/-- One evaluated check: whether something was found, what is told if that is not
allowed, the lines below it, and what is told if nothing was found. -/
structure Evaluation where
  found : Bool
  unexpected : String
  listed : List String
  missing : String

/-- The messages of the block that a check causes, if it disagrees with the mode. -/
def Evaluation.block? (mode : Mode) (e : Evaluation) : Option (List String) :=
  match mode with
  | .affirm => if e.found then none else some [e.missing]
  | .negate => if e.found then some (e.unexpected :: e.listed) else none

theorem Evaluation.disagreement_eq (mode : Mode) (e : Evaluation) :
    Context.disagreement mode e.found (e.unexpected :: e.listed) e.missing =
      (e.block? mode).getD [] := by
  cases mode <;> cases h : e.found <;> simp [Context.disagreement, block?, h]

namespace Findings

def joinBlocks (blocks : List (List String)) : String := String.join (blocks.map block)

def ofBlocks (blocks : List (List String)) : Findings :=
  ⟨[], joinBlocks blocks, !blocks.isEmpty⟩

theorem joinBlocks_concat (blocks : List (List String)) (messages : List String) :
    joinBlocks (blocks ++ [messages]) = joinBlocks blocks ++ block messages := by
  simp [joinBlocks]

theorem block_singleton (message : String) :
    block [message] = "Error(s) occurred:\n" ++ message ++ "\n" := by
  have joined : String.join [message ++ "\n"] = message ++ "\n" := by simp
  rw [String.append_assoc]
  exact congrArg ("Error(s) occurred:\n" ++ ·) joined

theorem block_ne_empty (messages : List String) : block messages ≠ "" := by
  intro h
  have front := (String.append_eq_empty_iff.1 h).1
  exact absurd front (by decide)

theorem joinBlocks_eq_empty_iff (blocks : List (List String)) :
    joinBlocks blocks = "" ↔ blocks = [] := by
  cases blocks with
  | nil => exact iff_of_true rfl rfl
  | cons messages rest =>
    have split : joinBlocks (messages :: rest) = block messages ++ joinBlocks rest := by
      simp [joinBlocks]
    rw [split]
    refine iff_of_false (fun h => ?_) (by simp)
    exact block_ne_empty messages (String.append_eq_empty_iff.1 h).1

/-- Findings whose report goes on with these blocks, and nothing pending. -/
def addBlocks (f : Findings) (blocks : List (List String)) : Findings :=
  ⟨[], f.report ++ joinBlocks blocks, f.failed || !blocks.isEmpty⟩

theorem addBlocks_nil {f : Findings} (settled : f.pending = []) : f.addBlocks [] = f := by
  cases f
  simpa [addBlocks, joinBlocks] using settled

theorem addBlocks_append (f : Findings) (blocks more : List (List String)) :
    f.addBlocks (blocks ++ more) = (f.addBlocks blocks).addBlocks more := by
  have joined : joinBlocks (blocks ++ more) = joinBlocks blocks ++ joinBlocks more := by
    simp [joinBlocks]
  simp only [addBlocks, joined, String.append_assoc]
  cases blocks <;> simp

theorem addBlocks_ofBlocks (blocks more : List (List String)) :
    (ofBlocks blocks).addBlocks more = ofBlocks (blocks ++ more) := by
  have whole (all : List (List String)) : ofBlocks all = none.addBlocks all := by
    simp [ofBlocks, addBlocks, none]
  rw [whole, whole, addBlocks_append]

theorem settle_recordAll {f : Findings} (settled : f.pending = []) {messages : List String}
    (nonempty : messages ≠ []) : (f.recordAll messages).settle = f.addBlocks [messages] := by
  have pending : messages.isEmpty = false := by simpa using nonempty
  simp [settle, recordAll, addBlocks, joinBlocks, settled, pending]

theorem verdict_ofBlocks (blocks : List (List String)) :
    (ofBlocks blocks).verdict = if blocks = [] then .ok () else .error (joinBlocks blocks) := by
  cases blocks <;> rfl

end Findings

namespace Context

def evaluate (c : Context) (e : Evaluation) : Context :=
  c.conclude e.found (e.unexpected :: e.listed) e.missing

def evaluateAll (c : Context) (evaluations : List Evaluation) : Context :=
  evaluations.foldl evaluate c

/-- Evaluating a check when nothing is pending adds the block that it causes, if any. -/
theorem evaluate_settled {c : Context} (settled : c.findings.pending = []) (e : Evaluation) :
    c.evaluate e = ⟨c.mode, c.findings.addBlocks (e.block? c.mode).toList⟩ := by
  simp only [evaluate, conclude, e.disagreement_eq]
  cases told : e.block? c.mode with
  | none =>
    have unchanged : c.findings.recordAll [] = c.findings := by simp [Findings.recordAll]
    have silent : c.findings.settle = c.findings := if_pos (by simpa using settled)
    simp only [Option.getD_none, Option.toList_none, unchanged, silent,
      Findings.addBlocks_nil settled]
  | some messages =>
    -- A block always has a first message, so settling never drops one.
    have nonempty : messages ≠ [] := by
      rintro rfl
      cases mode : c.mode <;> simp [Evaluation.block?, mode] at told
    simp [Findings.settle_recordAll settled nonempty]

theorem evaluateAll_settled {c : Context} (settled : c.findings.pending = [])
    (evaluations : List Evaluation) :
    c.evaluateAll evaluations =
      ⟨c.mode, c.findings.addBlocks (evaluations.filterMap (Evaluation.block? c.mode))⟩ := by
  induction evaluations generalizing c with
  | nil =>
    rw [List.filterMap_nil, Findings.addBlocks_nil settled]
    rfl
  | cons e rest ih =>
    change (c.evaluate e).evaluateAll rest = _
    rw [evaluate_settled settled, ih rfl, ← Findings.addBlocks_append]
    cases told : e.block? c.mode <;> simp [told]

theorem evaluateAll_ofBlocks (mode : Mode) (blocks : List (List String))
    (evaluations : List Evaluation) :
    evaluateAll ⟨mode, .ofBlocks blocks⟩ evaluations =
      ⟨mode, .ofBlocks (blocks ++ evaluations.filterMap (Evaluation.block? mode))⟩ := by
  rw [evaluateAll_settled rfl, Findings.addBlocks_ofBlocks]

end Context

end DescriptorCheck
