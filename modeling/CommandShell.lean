import CommandShell.Main
import CommandShell.Proofs.Engine.Dropped
import CommandShell.Proofs.Engine.EntryPoints
import CommandShell.Proofs.Engine.Noninterference
import CommandShell.Proofs.Engine.Provenance
import CommandShell.Proofs.Engine.Scopes
import CommandShell.Proofs.Engine.Unknown
import CommandShell.Proofs.Coercion.Numbers
import CommandShell.Proofs.Coercion.Sets
import CommandShell.Proofs.Line.Substitution
import CommandShell.Proofs.Line.Tokens
import CommandShell.Proofs.Literal.Escapes
import CommandShell.Proofs.Literal.RoundTrip
import CommandShell.Proofs.Literal.Wrapping
import CommandShell.Proofs.Parse.Accounting
import CommandShell.Proofs.Parse.Assembly
import CommandShell.Proofs.Parse.Defaults
import CommandShell.Proofs.Parse.FlagUse
import CommandShell.Proofs.Parse.FlaggedPieces
import CommandShell.Proofs.Parse.InlineFlags
import CommandShell.Proofs.Parse.NamedPairs
import CommandShell.Proofs.Parse.Remainder
import CommandShell.Proofs.Parse.RestOfLine
import CommandShell.Proofs.Parse.Soundness
import CommandShell.Proofs.Parse.SpanBinding
import CommandShell.Proofs.Registry.AliasLoss
import CommandShell.Proofs.Registry.InOrder
import CommandShell.Proofs.Settings.HomePaths
import CommandShell.Proofs.Settings.Saving
import CommandShell.Proofs.Shell.Background
import CommandShell.Proofs.Shell.Variables
import CommandShell.Proofs.Task.Capture
import CommandShell.Proofs.Task.Index
