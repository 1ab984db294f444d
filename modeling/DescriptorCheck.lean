import DescriptorCheck.Check.Checker
import DescriptorCheck.CommandLine.Run
import DescriptorCheck.Main
import DescriptorCheck.Number.Reading
import DescriptorCheck.Proofs.Check.History
import DescriptorCheck.Proofs.Check.Pointwise
import DescriptorCheck.Proofs.Check.Reachable
import DescriptorCheck.Proofs.Check.Widening
import DescriptorCheck.Proofs.Document.Superset
import DescriptorCheck.Proofs.Path.Descent
import DescriptorCheck.Proofs.Path.Enumeration
import DescriptorCheck.Proofs.Xml.Acceptance
import DescriptorCheck.Proofs.Xml.RoundTrip
import DescriptorCheck.Proofs.Document.Keys
import DescriptorCheck.Proofs.Path.Ambiguity
import DescriptorCheck.Proofs.Document.Paths
import DescriptorCheck.Proofs.Document.Loading
import DescriptorCheck.Proofs.Json.Integers
import DescriptorCheck.Proofs.Json.Writing
import DescriptorCheck.Proofs.Json.Lines
import DescriptorCheck.Proofs.CommandLine.Arguments
import DescriptorCheck.Proofs.CommandLine.Check
import DescriptorCheck.Proofs.Toml.Quoted
import DescriptorCheck.Proofs.Config.RoundTrip
import DescriptorCheck.Proofs.Xml.Elements
import DescriptorCheck.Proofs.Xml.Shape
import DescriptorCheck.Proofs.Path.Endings
import DescriptorCheck.Proofs.Check.Places
import DescriptorCheck.Proofs.Check.Executions
import DescriptorCheck.Proofs.Check.Dependencies
import DescriptorCheck.Proofs.Check.Registered
import DescriptorCheck.Proofs.Check.Values
import DescriptorCheck.Proofs.Yaml.Entries
import DescriptorCheck.Proofs.Xml.Kept
import DescriptorCheck.Proofs.Check.Starvation
import DescriptorCheck.Proofs.Check.ModuleEntries
import DescriptorCheck.Proofs.Check.Properties
import DescriptorCheck.Proofs.Document.Sniffing
import DescriptorCheck.Proofs.Xml.Repeated
import DescriptorCheck.Proofs.Path.Equality
import DescriptorCheck.Proofs.Check.KeyOrder
import DescriptorCheck.Proofs.Check.Refusals
import DescriptorCheck.Proofs.Number.Whole
import DescriptorCheck.Proofs.Json.Literals
import DescriptorCheck.Proofs.Json.Places
import DescriptorCheck.Proofs.Document.Integers
import DescriptorCheck.Proofs.Number.Digits
import DescriptorCheck.Proofs.Number.Rounding
import DescriptorCheck.Proofs.Number.Decimals
import DescriptorCheck.Proofs.Number.Display
import DescriptorCheck.Proofs.Check.Numbers
