import ComponentMarkup.CommandLine.Command
import ComponentMarkup.Main
import ComponentMarkup.Proofs.Braces
import ComponentMarkup.Proofs.Capture
import ComponentMarkup.Proofs.Comments.Above
import ComponentMarkup.Proofs.Comments.Code
import ComponentMarkup.Proofs.Comments.Markers
import ComponentMarkup.Proofs.Comments.Transparency
import ComponentMarkup.Proofs.Component.Conformance
import ComponentMarkup.Proofs.Finite
import ComponentMarkup.Proofs.Json.Denotation
import ComponentMarkup.Proofs.Json.Positions
import ComponentMarkup.Proofs.Overlay
import ComponentMarkup.Proofs.RelativePath
import ComponentMarkup.Proofs.Repetition
import ComponentMarkup.Proofs.Report
import ComponentMarkup.Proofs.Restatement
import ComponentMarkup.Proofs.Threads
import ComponentMarkup.Proofs.Verbosity
import ComponentMarkup.Settings.Environment
