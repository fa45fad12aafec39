import Understudy.CommandLine.LogFilter
import Understudy.CommandLine.Options
import Understudy.CommandLine.Program
import Understudy.Config
import Understudy.Failure
import Understudy.Files.Disk
import Understudy.Files.DiskPath
import Understudy.Files.FileTree
import Understudy.Files.RawText
import Understudy.Generate
import Understudy.Main
import Understudy.Modules.Constraint
import Understudy.Modules.Loader
import Understudy.Modules.Manifest
import Understudy.Modules.Package
import Understudy.Modules.Pattern
import Understudy.Modules.Target
import Understudy.Proofs.AddressedFunctions
import Understudy.Proofs.BodyIndentation
import Understudy.Proofs.BodyLines
import Understudy.Proofs.Boundary
import Understudy.Proofs.ClosedBrackets
import Understudy.Proofs.ConstraintGrammar
import Understudy.Proofs.CutTexts
import Understudy.Proofs.DiskPlaces
import Understudy.Proofs.DottedNames
import Understudy.Proofs.EnclosedLexemes
import Understudy.Proofs.ErasedText
import Understudy.Proofs.Erasure
import Understudy.Proofs.FailedRuns
import Understudy.Proofs.FileReading
import Understudy.Proofs.FileSegments
import Understudy.Proofs.FileShape
import Understudy.Proofs.FormattedStubs
import Understudy.Proofs.FoundDeclarations
import Understudy.Proofs.Inventory
import Understudy.Proofs.IsolatedOverrides
import Understudy.Proofs.JoinedTexts
import Understudy.Proofs.KeptReferences
import Understudy.Proofs.LaidOutCode
import Understudy.Proofs.Lexing
import Understudy.Proofs.LoadOrder
import Understudy.Proofs.LoadedPackages
import Understudy.Proofs.Lookahead
import Understudy.Proofs.ManifestTexts
import Understudy.Proofs.MergedImports
import Understudy.Proofs.ModuleRoots
import Understudy.Proofs.NestedModules
import Understudy.Proofs.OutputPlaces
import Understudy.Proofs.OverrideKeys
import Understudy.Proofs.OverrideTables
import Understudy.Proofs.PackagePatterns
import Understudy.Proofs.ParsedFiles
import Understudy.Proofs.ParsedLengths
import Understudy.Proofs.ParsedTypes
import Understudy.Proofs.ParserProgress
import Understudy.Proofs.Parsing
import Understudy.Proofs.PrintedCode
import Understudy.Proofs.PrintedFile
import Understudy.Proofs.PrintedText
import Understudy.Proofs.References
import Understudy.Proofs.Reformatting
import Understudy.Proofs.RenderedFiles
import Understudy.Proofs.RepeatedRuns
import Understudy.Proofs.RespacedTokens
import Understudy.Proofs.Scanning
import Understudy.Proofs.Segments
import Understudy.Proofs.Sorting
import Understudy.Proofs.SourceHeaders
import Understudy.Proofs.SourceSlices
import Understudy.Proofs.SpelledNames
import Understudy.Proofs.StatementEnds
import Understudy.Proofs.StubContents
import Understudy.Proofs.StubNames
import Understudy.Proofs.StubQualifiers
import Understudy.Proofs.StubStatements
import Understudy.Proofs.StubText
import Understudy.Proofs.TokenSpans
import Understudy.Proofs.TypeLexemes
import Understudy.Proofs.TypeReading
import Understudy.Proofs.TypeShape
import Understudy.Proofs.UsedImports
import Understudy.Report
import Understudy.Source.BodyLayout
import Understudy.Source.FileParser
import Understudy.Source.Identifier
import Understudy.Source.ImportPath
import Understudy.Source.Kind
import Understudy.Source.Lexeme
import Understudy.Source.Parser
import Understudy.Source.Position
import Understudy.Source.Printer
import Understudy.Source.Token
import Understudy.Source.Tree
import Understudy.Source.TypeParser
import Understudy.Source.TypeText
import Understudy.Stub.Decl
import Understudy.Stub.Formatter
import Understudy.Stub.Imports
import Understudy.Stub.Notes
import Understudy.Stub.Override
import Understudy.Stub.Package
import Understudy.Text.Alphabetic
import Understudy.Text.Blank
import Understudy.Text.Letter
import Understudy.Text.Lines
import Understudy.Text.Pieces
import Understudy.Text.Quoted
import Understudy.Text.Ranges
import Understudy.Text.Terminal
import Understudy.Text.Uppercase
import Understudy.Text.Utf8
import Understudy.Text.Visible
import Understudy.Yaml.Cursor
import Understudy.Yaml.Node
import Understudy.Yaml.Scalar
import Understudy.Yaml.Token
import Understudy.Yaml.TokenStream
import Understudy.Yaml.Value
