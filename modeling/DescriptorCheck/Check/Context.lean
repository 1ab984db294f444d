set_option autoImplicit false

namespace DescriptorCheck

inductive Mode where
  | affirm
  | negate
deriving DecidableEq

def Mode.toggle : Mode → Mode
  | .affirm => .negate
  | .negate => .affirm

structure Findings where
  pending : List String
  report : String
  failed : Bool
deriving DecidableEq

namespace Findings

def none : Findings := ⟨[], "", false⟩

def block (messages : List String) : String :=
  "Error(s) occurred:\n" ++ String.join (messages.map (· ++ "\n"))

def record (f : Findings) (message : String) : Findings :=
  { f with pending := f.pending ++ [message] }

def recordAll (f : Findings) (messages : List String) : Findings :=
  { f with pending := f.pending ++ messages }

/-- Moves the pending messages into the report as one block, if there are any. -/
def settle (f : Findings) : Findings :=
  if f.pending.isEmpty then f
  else ⟨[], f.report ++ block f.pending, true⟩

/-- Fails with the report once a block was moved into it; pending messages do
not count. -/
def verdict (f : Findings) : Except String Unit :=
  if f.failed then .error f.report else .ok ()

def verdictBecause (f : Findings) (reason : String) : Except String Unit :=
  if f.failed then .error (reason ++ "\n" ++ f.report) else .ok ()

theorem settle_pending (f : Findings) : f.settle.pending = [] := by
  unfold settle
  split
  · simpa using ‹f.pending.isEmpty = true›
  · rfl

theorem settle_settle (f : Findings) : f.settle.settle = f.settle := by
  have settled : f.settle.pending.isEmpty = true := by simp [settle_pending]
  rw [settle, if_pos settled]

end Findings

structure Context where
  mode : Mode
  findings : Findings
deriving DecidableEq

namespace Context

def fresh : Context := ⟨.affirm, .none⟩

def toggle (c : Context) : Context := { c with mode := c.mode.toggle }

def isNegated (c : Context) : Bool := c.mode == .negate

def record (c : Context) (message : String) : Context :=
  { c with findings := c.findings.record message }

def settle (c : Context) : Context := { c with findings := c.findings.settle }

def clear (c : Context) : Context := { c with findings := .none }

/-- The messages of one check: those of a match that should not be, or the one
of a match that should be and is not. -/
def disagreement (mode : Mode) (found : Bool) (disallowed : List String) (missing : String) :
    List String :=
  match mode, found with
  | .negate, true => disallowed
  | .affirm, false => [missing]
  | _, _ => []

def conclude (c : Context) (found : Bool) (disallowed : List String) (missing : String) :
    Context :=
  let messages := disagreement c.mode found disallowed missing
  { c with findings := (c.findings.recordAll messages).settle }

end Context

end DescriptorCheck
