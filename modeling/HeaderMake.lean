import HeaderMake.Collection
import HeaderMake.CommandLine.Arguments
import HeaderMake.CommandLine.Program
import HeaderMake.Configuration
import HeaderMake.Configuration.Decode
import HeaderMake.Configuration.Load
import HeaderMake.Event
import HeaderMake.Include.Directive
import HeaderMake.Include.Walk
import HeaderMake.Layout
import HeaderMake.Listing
import HeaderMake.Main
import HeaderMake.Makefile.FixedText
import HeaderMake.Makefile.ObjectList
import HeaderMake.Makefile.Render
import HeaderMake.Makefile.Rule
import HeaderMake.ObjectPath
import HeaderMake.Path
import HeaderMake.Proofs.Configuration.Loading
import HeaderMake.Proofs.Configuration.Overlay
import HeaderMake.Proofs.Configuration.Replacement
import HeaderMake.Proofs.Configuration.UnknownKeys
import HeaderMake.Proofs.ContinuedLists
import HeaderMake.Proofs.Include.Agreement
import HeaderMake.Proofs.Include.Chains
import HeaderMake.Proofs.Include.Entries
import HeaderMake.Proofs.Include.Grammar
import HeaderMake.Proofs.Include.Headers
import HeaderMake.Proofs.Include.Ladder
import HeaderMake.Proofs.Include.LineOrder
import HeaderMake.Proofs.Include.Lockstep
import HeaderMake.Proofs.Include.Lookups
import HeaderMake.Proofs.Include.OrderIndependence
import HeaderMake.Proofs.Include.ParentSegments
import HeaderMake.Proofs.Include.Payloads
import HeaderMake.Proofs.Include.PlainWalks
import HeaderMake.Proofs.Include.Reachability
import HeaderMake.Proofs.Include.Recursion
import HeaderMake.Proofs.Include.Respelling
import HeaderMake.Proofs.Include.Rounds
import HeaderMake.Proofs.Include.ScannedSources
import HeaderMake.Proofs.Include.Spelling
import HeaderMake.Proofs.Include.Unsettled
import HeaderMake.Proofs.Include.Visit
import HeaderMake.Proofs.LibraryHeaders
import HeaderMake.Proofs.LibrarySpelling
import HeaderMake.Proofs.LongestSatellite
import HeaderMake.Proofs.Makefile.ReadBack
import HeaderMake.Proofs.Makefile.RuleBlocks
import HeaderMake.Proofs.Makefile.SourceDirectory
import HeaderMake.Proofs.ObjectLists
import HeaderMake.Proofs.ObjectPaths
import HeaderMake.Proofs.Run.DryRun
import HeaderMake.Proofs.Run.Effects
import HeaderMake.Proofs.Run.Idempotence
import HeaderMake.Proofs.Run.Outputs
import HeaderMake.Proofs.Run.Plans
import HeaderMake.Proofs.Run.Turns
import HeaderMake.Proofs.Satellites
import HeaderMake.Proofs.ScannedForm
import HeaderMake.Proofs.SharedObjects
import HeaderMake.Proofs.TestListing
import HeaderMake.Proofs.Text.ByteOrder
import HeaderMake.Proofs.Text.Cutting
import HeaderMake.Proofs.Text.Decoding
import HeaderMake.Proofs.Text.Extensions
import HeaderMake.Proofs.Text.Occurrences
import HeaderMake.Proofs.Text.Order
import HeaderMake.Proofs.Text.Segments
import HeaderMake.Proofs.Text.Slices
import HeaderMake.Proofs.Text.Splitting
import HeaderMake.Proofs.Tree.Below
import HeaderMake.Proofs.Tree.Collected
import HeaderMake.Proofs.Tree.Encoded
import HeaderMake.Proofs.Tree.Growth
import HeaderMake.Proofs.Tree.Joining
import HeaderMake.Proofs.Tree.Linkless
import HeaderMake.Proofs.Tree.Readable
import HeaderMake.Proofs.Tree.Scanned
import HeaderMake.Proofs.Tree.Writing
import HeaderMake.Run.Error
import HeaderMake.Run.Generate
import HeaderMake.Run.Plan
import HeaderMake.Text
import HeaderMake.Text.Utf8
import HeaderMake.Toml.Blank
import HeaderMake.Toml.Document
import HeaderMake.Toml.Quoted
import HeaderMake.Toml.Scalar
import HeaderMake.Toml.Table
import HeaderMake.Toml.Value
import HeaderMake.Tree.Basic
import HeaderMake.Tree.Edit
import HeaderMake.Tree.Error
import HeaderMake.Tree.Lookup
import HeaderMake.Tree.RawPath
import HeaderMake.Tree.Scan
import HeaderMake.Workspace
