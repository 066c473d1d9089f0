import QueryTypes.Command.Program
import QueryTypes.Document.Assembly
import QueryTypes.Json.Access
import QueryTypes.Json.Printer
import QueryTypes.Main
import QueryTypes.Output.Generate
import QueryTypes.Pipeline.Run
import QueryTypes.Project.Session
import QueryTypes.Schema.Resolve
import QueryTypes.Validation.Document
import QueryTypes.Watch.Scripted
import QueryTypes.Watch.Session
import QueryTypes.Yaml.Data
import QueryTypes.Proofs.Glob.Found
import QueryTypes.Proofs.Output.Modules
import QueryTypes.Proofs.Project.History
import QueryTypes.Proofs.Schema.Distinct
import QueryTypes.Proofs.Shape.Presence
import QueryTypes.Proofs.Watch.Closing
import QueryTypes.Proofs.Watch.Flight
import QueryTypes.Proofs.Watch.Rounds
import QueryTypes.Proofs.Project.Assembled
import QueryTypes.Proofs.Document.Origins
import QueryTypes.Proofs.Document.Uses
import QueryTypes.Proofs.Document.Identifier
import QueryTypes.Proofs.Output.Manifest
import QueryTypes.Proofs.Output.Places
import QueryTypes.Proofs.Tree.Written
import QueryTypes.Proofs.Output.Written
import QueryTypes.Proofs.Document.Parsed
import QueryTypes.Proofs.Output.Apart
import QueryTypes.Proofs.Output.Stopped
import QueryTypes.Proofs.Output.Bundle
import QueryTypes.Proofs.Watch.Quiet
import QueryTypes.Proofs.Output.Typenames
import QueryTypes.Proofs.Shape.Names
import QueryTypes.Proofs.Document.Walks
import QueryTypes.Proofs.Shape.Collected
import QueryTypes.Proofs.Shape.Optional
import QueryTypes.Proofs.Shape.Literals
import QueryTypes.Proofs.Document.Involved
import QueryTypes.Proofs.Closure
import QueryTypes.Proofs.Shape.Needed
import QueryTypes.Proofs.Shape.Rearranged
import QueryTypes.Proofs.Output.Shared
import QueryTypes.Proofs.Document.Inserted
import QueryTypes.Proofs.Execution.Root
import QueryTypes.Proofs.Shape.Ledger
import QueryTypes.Proofs.Output.Discriminated
import QueryTypes.Proofs.Watch.Failing
import QueryTypes.Proofs.Glob.Roots
import QueryTypes.Proofs.Script.Embedded
import QueryTypes.Proofs.Pipeline.Calls
import QueryTypes.Proofs.Project.Ready
import QueryTypes.Proofs.Pipeline.Runs
import QueryTypes.Proofs.Pipeline.Failed
import QueryTypes.Proofs.Shape.Rendered
import QueryTypes.Proofs.Path.Reduced
import QueryTypes.Proofs.Output.Beside
import QueryTypes.Proofs.Output.Specifier
import QueryTypes.Proofs.Glob.Listed
import QueryTypes.Proofs.Schema.Request
import QueryTypes.Proofs.Schema.Reply
import QueryTypes.Proofs.Schema.Files
import QueryTypes.Proofs.Config.Loaded
import QueryTypes.Proofs.Text.Comment
import QueryTypes.Proofs.Path.Uri
import QueryTypes.Proofs.Glob.Choices
import QueryTypes.Proofs.Output.Enums
