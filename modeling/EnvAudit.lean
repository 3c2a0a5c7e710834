import EnvAudit.Script.Parse
import EnvAudit.Script.Grammar.Languages
import EnvAudit.Arguments
import EnvAudit.Audit
import EnvAudit.Command
import EnvAudit.FileTree.Edit
import EnvAudit.Script.Cursor
import EnvAudit.Proofs.KeyList
import EnvAudit.Proofs.FileTree.Resolve
import EnvAudit.Proofs.FileTree.Links
import EnvAudit.Proofs.Walk.Below
import EnvAudit.Proofs.Walk.Room
import EnvAudit.Proofs.Walk.Trails
import EnvAudit.Proofs.Audit.Exact
import EnvAudit.Proofs.Declaration.Document
import EnvAudit.Proofs.Declaration.Opening
import EnvAudit.Proofs.Declaration.Reading
import EnvAudit.Proofs.Declaration.Parts
import EnvAudit.Proofs.Declaration.Exact
import EnvAudit.Proofs.Declaration.Lines
import EnvAudit.Proofs.Script.Cursor
import EnvAudit.Proofs.Script.Pattern
import EnvAudit.Proofs.Script.StringParts
import EnvAudit.Proofs.Script.Spelling
import EnvAudit.Proofs.Script.Outcome
import EnvAudit.Proofs.Usage.Contribution
import EnvAudit.Proofs.Usage.Extraction
import EnvAudit.Proofs.Script.Program
import EnvAudit.Proofs.Text.Utf16
import EnvAudit.Proofs.Script.Bare
import EnvAudit.Proofs.Usage.Bare
import EnvAudit.Proofs.Usage.Program
import EnvAudit.Proofs.Usage.Literal
import EnvAudit.Proofs.Walk.Reach
import EnvAudit.Proofs.Walk.Branch
import EnvAudit.Proofs.ProjectFiles
import EnvAudit.Proofs.Walk.Agree
import EnvAudit.Proofs.Audit.Excluded
import EnvAudit.Proofs.Audit.Edited
import EnvAudit.Proofs.Audit.Isolation
import EnvAudit.Proofs.Audit.Repair
import EnvAudit.Proofs.Text.Json.Grammar
import EnvAudit.Proofs.Text.Utf8
import EnvAudit.Proofs.Text.LossySize
import EnvAudit.Proofs.Text.Json.Reader
import EnvAudit.Proofs.Text.Json.Document
import EnvAudit.Proofs.Text.Json.Quoted
import EnvAudit.Proofs.Report.Document
import EnvAudit.Proofs.Report.Findings
import EnvAudit.Proofs.Command.MachineReadable
import EnvAudit.Proofs.Command.Gate
import EnvAudit.Proofs.FileTree.Removed
import EnvAudit.Proofs.Walk.Removed
import EnvAudit.Proofs.Settings
import EnvAudit.Proofs.Audit.Settings
import EnvAudit.Proofs.Audit.Ignored
import EnvAudit.Proofs.Audit.Root
import EnvAudit.Proofs.Audit.SizeLimit
import EnvAudit.Proofs.Audit.Removed
import EnvAudit.Proofs.Command.Refused
import EnvAudit.Proofs.Command.Settings
import EnvAudit.Proofs.Text.Quoted
import EnvAudit.Proofs.Report.Lines
import EnvAudit.Proofs.Script.Comments
import EnvAudit.Proofs.Usage.Comments
import EnvAudit.Proofs.Walk.Failures
import EnvAudit.Proofs.ProjectFiles.Skipped
import EnvAudit.Proofs.Script.PropertyName
import EnvAudit.Proofs.Usage.PropertyName
import EnvAudit.Proofs.Path
import EnvAudit.Proofs.ProjectFiles.Names
import EnvAudit.Proofs.Declaration.Breaks
import EnvAudit.Proofs.Declaration.Matches
import EnvAudit.Proofs.Declaration.Scan
import EnvAudit.Proofs.Script.Search
