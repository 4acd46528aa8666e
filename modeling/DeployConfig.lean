import DeployConfig.CommandLine
import DeployConfig.CommandLine.Arguments
import DeployConfig.Component
import DeployConfig.Decimal.Shortest
import DeployConfig.Dictionary
import DeployConfig.Environment.Basic
import DeployConfig.Environment.Catalog
import DeployConfig.Environment.Definition
import DeployConfig.Environment.Form
import DeployConfig.Environment.Index
import DeployConfig.Environment.Repository
import DeployConfig.FileTree
import DeployConfig.Fleet
import DeployConfig.Host
import DeployConfig.Informant
import DeployConfig.Json.Number
import DeployConfig.Json.Printer
import DeployConfig.Json.Reader
import DeployConfig.Json.Value
import DeployConfig.Layer
import DeployConfig.Layer.Assembly
import DeployConfig.Layer.Contents
import DeployConfig.Layer.FileName
import DeployConfig.Main
import DeployConfig.Memo
import DeployConfig.Path
import DeployConfig.Path.Expansion
import DeployConfig.Placeholder
import DeployConfig.Placeholder.Scanner
import DeployConfig.Placeholder.Written
import DeployConfig.Project
import DeployConfig.Proofs.Environment.Aliases
import DeployConfig.Proofs.Environment.Entries
import DeployConfig.Proofs.Environment.Fallback
import DeployConfig.Proofs.Environment.Inclusions
import DeployConfig.Proofs.Environment.Layers
import DeployConfig.Proofs.Environment.Merging
import DeployConfig.Proofs.Environment.Names
import DeployConfig.Proofs.Environment.Overrides
import DeployConfig.Proofs.Environment.Places
import DeployConfig.Proofs.Environment.Registration
import DeployConfig.Proofs.Environment.Snapshots
import DeployConfig.Proofs.Fleet.Builds
import DeployConfig.Proofs.Fleet.FixedPoints
import DeployConfig.Proofs.Fleet.Sessions
import DeployConfig.Proofs.Fleet.Transience
import DeployConfig.Proofs.Fleet.Values
import DeployConfig.Proofs.Layer.Assembly
import DeployConfig.Proofs.Layer.FileNames
import DeployConfig.Proofs.Layer.Flattening
import DeployConfig.Proofs.Layer.Transience
import DeployConfig.Proofs.Memo
import DeployConfig.Proofs.Memo.Requests
import DeployConfig.Proofs.Placeholder.Grammar
import DeployConfig.Proofs.Placeholder.Locality
import DeployConfig.Proofs.Placeholder.RoundTrip
import DeployConfig.Proofs.Placeholder.Scanning
import DeployConfig.Proofs.Property.Backslashes
import DeployConfig.Proofs.Property.Declarations
import DeployConfig.Proofs.Resolution.Chains
import DeployConfig.Proofs.Resolution.Cycles
import DeployConfig.Proofs.Resolution.Defaults
import DeployConfig.Proofs.Resolution.Delegation
import DeployConfig.Proofs.Resolution.DepthLimit
import DeployConfig.Proofs.Resolution.EntryPoints
import DeployConfig.Proofs.Resolution.Paths
import DeployConfig.Proofs.Resolution.Pinning
import DeployConfig.Proofs.Resolution.Precedence
import DeployConfig.Proofs.Resolution.Roots
import DeployConfig.Proofs.Resolution.Runs
import DeployConfig.Proofs.Resolution.Siblings
import DeployConfig.Proofs.Resolution.Termination
import DeployConfig.Proofs.Resolution.Transience
import DeployConfig.Proofs.Supply.Files
import DeployConfig.Proofs.Supply.IncludeTexts
import DeployConfig.Proofs.Supply.Includes
import DeployConfig.Proofs.Text.Trimming
import DeployConfig.Proofs.Toml.Tables
import DeployConfig.Property
import DeployConfig.Remembered
import DeployConfig.Resolution
import DeployConfig.Resolution.Step
import DeployConfig.Resolution.World
import DeployConfig.Scalar
import DeployConfig.Settings
import DeployConfig.Stores
import DeployConfig.Supply
import DeployConfig.Supply.Declarations
import DeployConfig.Supply.Directories
import DeployConfig.Supply.Files
import DeployConfig.Text.Alphanumeric
import DeployConfig.Text.Blank
import DeployConfig.Text.ByteOffset
import DeployConfig.Toml.Atom
import DeployConfig.Toml.Datetime
import DeployConfig.Toml.Outline
import DeployConfig.Toml.Quoted
import DeployConfig.Toml.Reader
import DeployConfig.Toml.Value
import DeployConfig.Traced
