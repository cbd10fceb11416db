import BuildAhead.Text.Blank
import BuildAhead.Text.Pieces
import BuildAhead.Text.Case
import BuildAhead.Text.Quoted
import BuildAhead.Text.Width
import BuildAhead.Number.Notation
import BuildAhead.Collection.Dict
import BuildAhead.Json.Reader
import BuildAhead.Json.Printer
import BuildAhead.Profile
import BuildAhead.BuildError
import BuildAhead.Code.Encoding
import BuildAhead.Code.Splitting
import BuildAhead.Code.Literal
import BuildAhead.Files.Tree
import BuildAhead.Settings.Basic
import BuildAhead.Application.Loading
import BuildAhead.Text.Alphanumeric
import BuildAhead.Generation.Context
import BuildAhead.Services.Rendering
import BuildAhead.Services.Discovery
import BuildAhead.Modules.Registry
import BuildAhead.Optimizations.Catalogue
import BuildAhead.Building.Build
import BuildAhead.Report.BuildReport
import BuildAhead.Report.ModuleReport
import BuildAhead.Toml.Reader
import BuildAhead.Ini.Reader
import BuildAhead.Settings.ConfigTree
import BuildAhead.Yaml.Scalar
import BuildAhead.Yaml.Reader
import BuildAhead.Settings.Loading
import BuildAhead.Logging.Line
import BuildAhead.CommandLine.Session
import BuildAhead.Main
import BuildAhead.Proofs.Modules.Ordering
import BuildAhead.Proofs.Modules.Scheduling
import BuildAhead.Proofs.Modules.Cycles
import BuildAhead.Proofs.Modules.Failures
import BuildAhead.Proofs.Generation.Actions
import BuildAhead.Proofs.Building.Calls
import BuildAhead.Proofs.Building.Outcome
import BuildAhead.Proofs.Services.Table
import BuildAhead.Proofs.Services.Replacement
import BuildAhead.Proofs.Services.Discovery
import BuildAhead.Proofs.Services.Explaining
import BuildAhead.Proofs.Services.Queries
import BuildAhead.Proofs.Code.Execution
import BuildAhead.Proofs.Code.Splitting
import BuildAhead.Proofs.Code.Literals
import BuildAhead.Proofs.Services.Rendering
import BuildAhead.Proofs.Generation.Units
import BuildAhead.Proofs.Generation.Manifests
import BuildAhead.Proofs.Optimizations.ServiceLoading
import BuildAhead.Proofs.Building.Refusal
import BuildAhead.Proofs.Services.Substitutes
import BuildAhead.Proofs.Services.Keeping
import BuildAhead.Proofs.Generation.Flushing
import BuildAhead.Proofs.Generation.History
import BuildAhead.Proofs.Code.References
import BuildAhead.Proofs.Optimizations.Announcing
import BuildAhead.Proofs.Optimizations.Linking
import BuildAhead.Proofs.Building.Links
import BuildAhead.Proofs.Building.Manifests
import BuildAhead.Proofs.Building.NativeImage
import BuildAhead.Proofs.Settings.Layers
import BuildAhead.Proofs.Text.Case
import BuildAhead.Proofs.Optimizations.Spellings
import BuildAhead.Proofs.Optimizations.Precomputing
import BuildAhead.Proofs.Optimizations.PropertySources
import BuildAhead.Proofs.Generation.Refusing
import BuildAhead.Proofs.Code.OwnCalls
import BuildAhead.Proofs.Optimizations.EntryPoint
import BuildAhead.Proofs.Services.Availability
import BuildAhead.Proofs.Toml.Assignments
import BuildAhead.Proofs.Modules.SampleConfiguration
import BuildAhead.Proofs.Services.Resolving
import BuildAhead.Proofs.Application.Manifest
import BuildAhead.Proofs.Building.Logs
import BuildAhead.Proofs.Settings.Ordering
import BuildAhead.Proofs.Settings.Items
import BuildAhead.Proofs.Settings.Nesting
import BuildAhead.Proofs.Logging.Starting
