import SourceSurvey.Main
import SourceSurvey.FileSystem.Place
import SourceSurvey.Reader
import SourceSurvey.Proofs.DeclarationScan.Bodies
import SourceSurvey.Proofs.DeclarationScan.Prototypes
import SourceSurvey.Proofs.IncludeGraph.Order
import SourceSurvey.Proofs.Survey.Files
import SourceSurvey.Proofs.DeclarationScan.Failure
import SourceSurvey.Proofs.IncludeGraph.Units
import SourceSurvey.Proofs.Text.Glob
import SourceSurvey.Proofs.Discovery.Patterns
import SourceSurvey.Proofs.FileSystem.Walking
import SourceSurvey.Proofs.Discovery.Files
import SourceSurvey.Proofs.FileSystem.RealPath
import SourceSurvey.Proofs.CommandLine.Outcome
import SourceSurvey.Proofs.FileSystem.TextFiles
import SourceSurvey.Proofs.Comments
import SourceSurvey.Proofs.CommandLine.Layout
import SourceSurvey.Proofs.Text.Markup
import SourceSurvey.Proofs.CommandLine.Escaping
import SourceSurvey.Proofs.IncludeGraph.Permutation
import SourceSurvey.Proofs.Survey.Edits
import SourceSurvey.Proofs.Reader
import SourceSurvey.Proofs.Survey.Directory
import SourceSurvey.Proofs.Reader.Skipping
import SourceSurvey.Proofs.IncludeGraph.Closure
import SourceSurvey.Proofs.IncludeGraph.Enumeration
import SourceSurvey.Proofs.DeclarationScan.Wrapping
import SourceSurvey.Proofs.Declaration.Grammar
import SourceSurvey.Proofs.Include.Grammar
import SourceSurvey.Proofs.Include.Sources
import SourceSurvey.Proofs.CommandLine.Graph
import SourceSurvey.Proofs.Csv
import SourceSurvey.Proofs.Text.Pieces
import SourceSurvey.Proofs.CommandLine.Data
import SourceSurvey.Proofs.CommandLine.Scan
