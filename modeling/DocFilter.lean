import DocFilter.CommandLine.Machine
import DocFilter.Document.Embedded
import DocFilter.Json.Strict
import DocFilter.Main
import DocFilter.Proofs.AcceptedText
import DocFilter.Proofs.AmountRange
import DocFilter.Proofs.BareComparisons
import DocFilter.Proofs.BuilderCalls
import DocFilter.Proofs.BuilderStates
import DocFilter.Proofs.ClauseOrder
import DocFilter.Proofs.DocumentText
import DocFilter.Proofs.ExactNumbers
import DocFilter.Proofs.FailedWrites
import DocFilter.Proofs.FewDigits
import DocFilter.Proofs.IndexReading
import DocFilter.Proofs.IntegerFields
import DocFilter.Proofs.IntegerWindow
import DocFilter.Proofs.Interleaving
import DocFilter.Proofs.Isolation
import DocFilter.Proofs.Literals
import DocFilter.Proofs.PageWindow
import DocFilter.Proofs.ParallelWalks
import DocFilter.Proofs.PlainNumbers
import DocFilter.Proofs.Presence
import DocFilter.Proofs.Projection
import DocFilter.Proofs.ReportedIds
import DocFilter.Proofs.SettingSources
import DocFilter.Proofs.StrictReading
import DocFilter.Proofs.TableOrder
import DocFilter.Proofs.TypeRestriction
import DocFilter.Proofs.UntouchedFields
import DocFilter.Proofs.WrittenNames
import DocFilter.Service.World
import DocFilter.Settings.FileTree
import DocFilter.Settings.VariableLines
import DocFilter.Toml.Scalar
import DocFilter.Toml.Table
import DocFilter.Yaml.Writer
