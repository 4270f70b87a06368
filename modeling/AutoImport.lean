import AutoImport.ChangeRouting
import AutoImport.CommandLine.Arguments
import AutoImport.CommandLine.Footprint
import AutoImport.CommandLine.Report
import AutoImport.CommandLine.Run
import AutoImport.CommandLine.SourceFiles
import AutoImport.Config
import AutoImport.Decimal.Shortest
import AutoImport.Discovery
import AutoImport.Entrypoints
import AutoImport.ExportIndex
import AutoImport.Files.Disk
import AutoImport.Files.Memory
import AutoImport.Files.View
import AutoImport.Json.Printer
import AutoImport.Json.Record
import AutoImport.Json.Relaxed
import AutoImport.Json.Strict
import AutoImport.Json.Tree
import AutoImport.Json.Value
import AutoImport.Limits
import AutoImport.LogFormat
import AutoImport.Main
import AutoImport.Manifest
import AutoImport.ManifestCache
import AutoImport.Options
import AutoImport.PackageLookup
import AutoImport.Path
import AutoImport.Probed
import AutoImport.Program
import AutoImport.Project
import AutoImport.Proofs.Text.LowercasePieces
import AutoImport.Proofs.Text.SeparatorPieces
import AutoImport.Provider
import AutoImport.Session
import AutoImport.Specifiers
import AutoImport.Standalone
import AutoImport.Symlinks
import AutoImport.Table
import AutoImport.Text.Basic
import AutoImport.Text.Blank
import AutoImport.Text.CaseRanges
import AutoImport.Text.Identifier
import AutoImport.Text.LetterRanges
import AutoImport.Text.Lowercase
import AutoImport.Version
import AutoImport.Proofs.Discovery.PackageSteps
import AutoImport.Proofs.Discovery.DependencyCap
import AutoImport.Proofs.Path.NormalPaths
import AutoImport.Proofs.Path.PathKeys
import AutoImport.Proofs.Files.ReadingByKey
import AutoImport.Proofs.Manifests.CacheAgreement
import AutoImport.Proofs.Path.PackagePaths
import AutoImport.Proofs.Packages.TruthfulLookups
import AutoImport.Proofs.Discovery.FreshFindings
import AutoImport.Proofs.Session.Operations
import AutoImport.Proofs.Session.QueryOutcomes
import AutoImport.Proofs.Session.SettledProjects
import AutoImport.Proofs.Session.ProjectSteps
import AutoImport.Proofs.Session.OperationEffects
import AutoImport.Proofs.Session.SessionInvariants
import AutoImport.Proofs.Session.CacheTransparency
import AutoImport.Proofs.Session.ResetLaw
import AutoImport.Proofs.Path.PackageScope
import AutoImport.Proofs.Session.UnnoticedManifests
import AutoImport.Proofs.Discovery.ResultBounds
import AutoImport.Proofs.Discovery.AgreeingMemories
import AutoImport.Proofs.Session.SlotStates
import AutoImport.Proofs.Manifests.RepeatedSearches
import AutoImport.Proofs.Discovery.RecordedLinks
import AutoImport.Proofs.Discovery.RepeatedRuns
import AutoImport.Proofs.Session.RepeatedQueries
import AutoImport.Proofs.Session.CurrentExports
import AutoImport.Proofs.Specifiers.SpecifierGenerations
import AutoImport.Proofs.Path.SlashRootedPaths
import AutoImport.Proofs.Manifests.PresenceStates
import AutoImport.Proofs.Discovery.ContributingPackages
import AutoImport.Proofs.Session.ProjectFates
import AutoImport.Proofs.Session.ChangeRoutes
import AutoImport.Proofs.Symlinks.LinkIndexes
import AutoImport.Proofs.Path.RelativePaths
import AutoImport.Proofs.Entrypoints.FoundFiles
import AutoImport.Proofs.Entrypoints.TargetPaths
import AutoImport.Proofs.Entrypoints.ExportTargets
import AutoImport.Proofs.Entrypoints.StarPatterns
import AutoImport.Proofs.Entrypoints.MainEntries
import AutoImport.Proofs.Discovery.RootOrigins
import AutoImport.Proofs.Session.RootChanges
import AutoImport.Proofs.Entrypoints.AcceptedFiles
import AutoImport.Proofs.Path.AncestorSegments
import AutoImport.Proofs.Packages.SearchedManifests
import AutoImport.Proofs.Discovery.DependencyOrder
import AutoImport.Proofs.Discovery.RealRoots
import AutoImport.Proofs.Exports.NameOrder
import AutoImport.Proofs.Exports.PrefixSearch
import AutoImport.Proofs.Path.SlashKeys
import AutoImport.Proofs.Manifests.SingleProbes
import AutoImport.Proofs.Manifests.MirroringSearches
import AutoImport.Proofs.Manifests.FiledManifests
import AutoImport.Proofs.Session.ManifestRoutes
import AutoImport.Proofs.Entrypoints.ExportConditions
import AutoImport.Proofs.Json.DeclaredFields
import AutoImport.Proofs.Manifests.DescribedManifests
import AutoImport.Proofs.Symlinks.RealPaths
import AutoImport.Proofs.Files.WrittenFiles
import AutoImport.Proofs.Path.AncestorLists
import AutoImport.Proofs.Files.InterchangeableLinks
import AutoImport.Proofs.Entrypoints.CompleteWalks
import AutoImport.Proofs.Versions.RefinedWildcards
import AutoImport.Proofs.Symlinks.GuessedLinks
