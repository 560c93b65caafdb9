import RepoScope.Main
import RepoScope.Proofs.NonInterference
import RepoScope.Proofs.Outline.Declarations
import RepoScope.Proofs.Outline.FileScope
import RepoScope.Proofs.Outline.Hiding
import RepoScope.Proofs.Outline.Indented.Hiding
import RepoScope.Proofs.Shape
import RepoScope.Proofs.Shaking
import RepoScope.Proofs.Degradation
import RepoScope.Proofs.Targets
import RepoScope.Proofs.Ranking
import RepoScope.Proofs.Resolution
import RepoScope.Proofs.Xml.Recovery
import RepoScope.Proofs.Reranking
import RepoScope.Proofs.Import.Directories
import RepoScope.Proofs.Pattern.Lines
import RepoScope.Proofs.Pattern.Steps
import RepoScope.Proofs.Import.Statements
import RepoScope.Proofs.Import.Lists
import RepoScope.Proofs.Import.Reading
import RepoScope.Proofs.Import.FromImports
import RepoScope.Proofs.Import.Layouts
import RepoScope.Proofs.Components
import RepoScope.Proofs.Import.Climbing
import RepoScope.Proofs.Glob
import RepoScope.Proofs.Ignore.Verdict
import RepoScope.Proofs.Ignore.Meaning
import RepoScope.Proofs.Ignore.Layers
import RepoScope.Proofs.Outline.Refusals
import RepoScope.Proofs.Outline.Interchange
import RepoScope.Proofs.Accounts
import RepoScope.Proofs.Pins
import RepoScope.Proofs.Denylist
import RepoScope.Proofs.Reports
import RepoScope.Proofs.Listing.Drawing
import RepoScope.Proofs.Languages
import RepoScope.Proofs.Normalization
import RepoScope.Proofs.LowerCase
import RepoScope.Proofs.Words
import RepoScope.Proofs.Prohibitions
import RepoScope.Proofs.Outline.Tokens
import RepoScope.Proofs.Outline.Literals
