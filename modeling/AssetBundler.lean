import AssetBundler.Asset.Basic
import AssetBundler.Asset.Content
import AssetBundler.Asset.Publication
import AssetBundler.Command.Invocation
import AssetBundler.Command.Run
import AssetBundler.Command.Token
import AssetBundler.Config
import AssetBundler.Config.File
import AssetBundler.Digest.Sha1
import AssetBundler.Directive.Basic
import AssetBundler.Directive.Handler
import AssetBundler.Directive.Words
import AssetBundler.Disk.Basic
import AssetBundler.Disk.Error
import AssetBundler.Disk.Node
import AssetBundler.Disk.Text
import AssetBundler.Disk.Write
import AssetBundler.Encoding.Base64
import AssetBundler.Encoding.Percent
import AssetBundler.Failure
import AssetBundler.Header
import AssetBundler.Ignore
import AssetBundler.Json.Printer
import AssetBundler.Json.Reader
import AssetBundler.Manifest
import AssetBundler.Name
import AssetBundler.Number.Shortest
import AssetBundler.Path
import AssetBundler.Pipeline
import AssetBundler.Processor.Basic
import AssetBundler.Processor.Entry
import AssetBundler.Processor.Reference
import AssetBundler.Proofs.Action
import AssetBundler.Proofs.Action.Runs
import AssetBundler.Proofs.Asset.Address
import AssetBundler.Proofs.Asset.Body
import AssetBundler.Proofs.Asset.Containment
import AssetBundler.Proofs.Asset.ContentType
import AssetBundler.Proofs.Asset.Desk
import AssetBundler.Proofs.Asset.Existence
import AssetBundler.Proofs.Asset.Failing
import AssetBundler.Proofs.Asset.Freshness
import AssetBundler.Proofs.Asset.Name
import AssetBundler.Proofs.Asset.Outcome
import AssetBundler.Proofs.Asset.Production
import AssetBundler.Proofs.Asset.Recording
import AssetBundler.Proofs.Asset.Stored
import AssetBundler.Proofs.Asset.Writing
import AssetBundler.Proofs.Command.Exit
import AssetBundler.Proofs.Directive.Grammar
import AssetBundler.Proofs.Directive.LinePattern
import AssetBundler.Proofs.Directive.Notation
import AssetBundler.Proofs.Directive.Parsing
import AssetBundler.Proofs.Directive.Reader
import AssetBundler.Proofs.Directive.Stripping
import AssetBundler.Proofs.Disk.Change
import AssetBundler.Proofs.Disk.Clearing
import AssetBundler.Proofs.Disk.Contents
import AssetBundler.Proofs.Disk.Copying
import AssetBundler.Proofs.Disk.Distinct
import AssetBundler.Proofs.Disk.Existence
import AssetBundler.Proofs.Disk.Frame
import AssetBundler.Proofs.Disk.Heritable
import AssetBundler.Proofs.Disk.Kind
import AssetBundler.Proofs.Disk.Listing
import AssetBundler.Proofs.Disk.Locate
import AssetBundler.Proofs.Disk.Proper
import AssetBundler.Proofs.Disk.Reading
import AssetBundler.Proofs.Disk.Refusal
import AssetBundler.Proofs.Disk.Replay
import AssetBundler.Proofs.Disk.Sound
import AssetBundler.Proofs.Disk.Temporary
import AssetBundler.Proofs.Encoding.Base64
import AssetBundler.Proofs.Encoding.Percent
import AssetBundler.Proofs.Header
import AssetBundler.Proofs.Header.Run
import AssetBundler.Proofs.Json.Grammar
import AssetBundler.Proofs.Json.RoundTrip
import AssetBundler.Proofs.Manifest.Lookup
import AssetBundler.Proofs.Manifest.Persistence
import AssetBundler.Proofs.Manifest.Reload
import AssetBundler.Proofs.Path.Descent
import AssetBundler.Proofs.Path.Idempotence
import AssetBundler.Proofs.Path.Least
import AssetBundler.Proofs.Path.Resolution
import AssetBundler.Proofs.Path.Search
import AssetBundler.Proofs.Path.Text
import AssetBundler.Proofs.Pipeline.Address
import AssetBundler.Proofs.Pipeline.Opening
import AssetBundler.Proofs.Pipeline.Switching
import AssetBundler.Proofs.Processor.Entry
import AssetBundler.Proofs.Processor.Options
import AssetBundler.Proofs.Processor.Reference
import AssetBundler.Proofs.Release.Address
import AssetBundler.Proofs.Release.Compiling
import AssetBundler.Proofs.Release.Contents
import AssetBundler.Proofs.Release.Entries
import AssetBundler.Proofs.Release.Failing
import AssetBundler.Proofs.Release.Made
import AssetBundler.Proofs.Release.Step
import AssetBundler.Proofs.Script.Ending
import AssetBundler.Proofs.Session.Bundle
import AssetBundler.Proofs.Session.Chain
import AssetBundler.Proofs.Session.Contents
import AssetBundler.Proofs.Session.Cycle
import AssetBundler.Proofs.Session.DataUri
import AssetBundler.Proofs.Session.Demand
import AssetBundler.Proofs.Session.Dependencies
import AssetBundler.Proofs.Session.Executed
import AssetBundler.Proofs.Session.Expansion
import AssetBundler.Proofs.Session.Failing
import AssetBundler.Proofs.Session.Gathering
import AssetBundler.Proofs.Session.ImportGraph
import AssetBundler.Proofs.Session.Nesting
import AssetBundler.Proofs.Session.Order
import AssetBundler.Proofs.Session.Performing
import AssetBundler.Proofs.Session.Postorder
import AssetBundler.Proofs.Session.Preference
import AssetBundler.Proofs.Session.Restoration
import AssetBundler.Proofs.Session.Tree
import AssetBundler.Proofs.Static.Address
import AssetBundler.Proofs.Static.Copy
import AssetBundler.Proofs.Static.Fingerprint
import AssetBundler.Proofs.Static.Listing
import AssetBundler.Proofs.Static.Reported
import AssetBundler.Proofs.Static.Source
import AssetBundler.Proofs.Static.Tracking
import AssetBundler.Proofs.Static.Walk
import AssetBundler.Proofs.Stylesheet.Statement
import AssetBundler.Proofs.Text.Extension
import AssetBundler.Proofs.Text.Lines
import AssetBundler.Proofs.Text.Lowercase
import AssetBundler.Proofs.Text.Pattern
import AssetBundler.Release
import AssetBundler.Script.Compact
import AssetBundler.Script.Terminator
import AssetBundler.SearchPath
import AssetBundler.Session.Basic
import AssetBundler.Session.Evaluation
import AssetBundler.Site
import AssetBundler.Static
import AssetBundler.Stylesheet.Compact
import AssetBundler.Stylesheet.Import
import AssetBundler.Stylesheet.Nested.Compiler
import AssetBundler.Stylesheet.Nested.Reader
import AssetBundler.Stylesheet.Reference
import AssetBundler.Table
import AssetBundler.Tag
import AssetBundler.Text.Blank
import AssetBundler.Text.CaseTable
import AssetBundler.Text.Html
import AssetBundler.Text.Lines
import AssetBundler.Text.Lowercase
import AssetBundler.Text.Pieces
import AssetBundler.Text.PrintableTable
import AssetBundler.Text.Ranges
import AssetBundler.Text.Split
import AssetBundler.Text.Word
import AssetBundler.Text.WordTable
import AssetBundler.Value
import AssetBundler.Value.Literal
import AssetBundler.Yaml.Flow
import AssetBundler.Yaml.Reader
import AssetBundler.Yaml.Scalar
