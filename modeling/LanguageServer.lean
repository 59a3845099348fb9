import LanguageServer.Text.LineEdits
import LanguageServer.Uri.Address
import LanguageServer.Outline.Scan
import LanguageServer.Query.Capabilities
import LanguageServer.Workspace.Workspace
import LanguageServer.Server.Service
import LanguageServer.Server.Outbox
import LanguageServer.CommandLine.Startup
import LanguageServer.Main
import LanguageServer.Proofs.Documents.Agreement
import LanguageServer.Proofs.Documents.Versions
import LanguageServer.Proofs.Session.SymbolSearch
import LanguageServer.Proofs.Workspace.Keyed
import LanguageServer.Proofs.Service.Projects
import LanguageServer.Proofs.Workspace.Buffers
import LanguageServer.Proofs.Documents.Indexing
import LanguageServer.Proofs.Workspace.Rebuild
import LanguageServer.Proofs.Workspace.Handles
import LanguageServer.Proofs.Workspace.Apart
import LanguageServer.Proofs.Session.Refresh
import LanguageServer.Proofs.Documents.Analyses
import LanguageServer.Proofs.Session.Informed
import LanguageServer.Proofs.Session.Current
import LanguageServer.Proofs.Service.Diagnostics
import LanguageServer.Proofs.Documents.Failures
import LanguageServer.Proofs.Documents.Commuting
import LanguageServer.Proofs.Session.Phases
import LanguageServer.Proofs.Session.Cancellation
import LanguageServer.Proofs.Protocol.CompletionItems
import LanguageServer.Proofs.Protocol.Resolving
import LanguageServer.Proofs.Session.Completions
import LanguageServer.Proofs.Query.Renaming
import LanguageServer.Proofs.Query.Views
import LanguageServer.Proofs.Query.Reformatting
import LanguageServer.Proofs.Query.Candidates
import LanguageServer.Proofs.Query.Brackets
import LanguageServer.Proofs.Query.Fixes
import LanguageServer.Proofs.Query.Retyping
import LanguageServer.Proofs.Text.LineEdits
import LanguageServer.Proofs.Session.Purity
import LanguageServer.Proofs.Service.CurrentFindings
import LanguageServer.Proofs.Text.Utf8
import LanguageServer.Proofs.Uri.Escapes
import LanguageServer.Proofs.Uri.Keys
import LanguageServer.Proofs.Uri.Encoding
import LanguageServer.Proofs.Uri.References
import LanguageServer.Proofs.Uri.Variants
import LanguageServer.Proofs.Uri.LocalAddresses
import LanguageServer.Proofs.Uri.LocalPaths
import LanguageServer.Proofs.Uri.Expressible
import LanguageServer.Proofs.Text.Words
import LanguageServer.Proofs.Outline.Lines
import LanguageServer.Proofs.Outline.Nesting
import LanguageServer.Proofs.Outline.Forest
import LanguageServer.Proofs.Sliced.Capabilities
import LanguageServer.Proofs.Query.ParameterLists
import LanguageServer.Proofs.Query.Calls
import LanguageServer.Proofs.Client.TaskReports
import LanguageServer.Proofs.Uri.Ancestry
import LanguageServer.Proofs.Workspace.Carets
import LanguageServer.Proofs.Transport.Writing
