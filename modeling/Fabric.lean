import Fabric.NameTable
import Fabric.Text.Blank
import Fabric.Text.Lines
import Fabric.Text.Split
import Fabric.Text.Escape
import Fabric.RouteTree.Flat
import Fabric.Pip
import Fabric.FileFormat
import Fabric.RouteText.Parser
import Fabric.RouteText.Printer
import Fabric.Json.Reader
import Fabric.Json.Decode
import Fabric.Json.Printer
import Fabric.Yaml.Quoted
import Fabric.Yaml.Reader
import Fabric.Device.Build
import Fabric.Netlist.Build
import Fabric.Intersite
import Fabric.SiteRoute.Search
import Fabric.SiteRoute.Apply
import Fabric.Record.Import
import Fabric.Export.Boundary
import Fabric.Export.Report
import Fabric.File.Folder
import Fabric.Main
import Fabric.Proofs.RouteTree.Search
import Fabric.Proofs.Checked
import Fabric.Proofs.Device.Wiring
import Fabric.Proofs.Device.Pins
import Fabric.Proofs.Intersite.Exact
import Fabric.Proofs.RouteTree.Pruning
import Fabric.Proofs.SiteRoute.Search
import Fabric.Proofs.RouteText.Grammar
import Fabric.Proofs.RouteText.Scan
import Fabric.Proofs.SiteRoute.Exact
import Fabric.Proofs.RouteText.RoundTrip
import Fabric.Proofs.RouteText.Acceptance
import Fabric.Proofs.RouteText.RouteValue
import Fabric.Proofs.Record.Agreement
import Fabric.Proofs.Record.Growth
import Fabric.Proofs.Record.Credit
import Fabric.Proofs.Record.Progress
import Fabric.Proofs.Record.NotedTrees
import Fabric.Proofs.Record.Status
import Fabric.Proofs.Netlist.Placement
import Fabric.Proofs.Netlist.Ties
import Fabric.Proofs.Netlist.Mapping
import Fabric.Proofs.Record.Ties
import Fabric.Proofs.Intersite.Arrivals
import Fabric.Proofs.Record.Arrivals
import Fabric.Proofs.Pip
import Fabric.Proofs.Netlist.Resemblance
import Fabric.Proofs.Record.Outcome
import Fabric.Proofs.Record.Pieces
import Fabric.Proofs.Record.Spacing
import Fabric.Proofs.Record.TieOffs
import Fabric.Proofs.Netlist.PseudoPins
import Fabric.Proofs.Device.Bels
import Fabric.Proofs.Device.Queries
import Fabric.Proofs.Record.Mapping
import Fabric.Proofs.SiteRoute.Repeating
import Fabric.Proofs.Record.Repetition
import Fabric.Proofs.Record.PseudoPins
import Fabric.Proofs.Record.PartitionWires
import Fabric.Proofs.Netlist.Names
import Fabric.Proofs.Record.SitePips
import Fabric.Proofs.RouteTree.Renumbering
import Fabric.Proofs.RouteTree.TrueChildren
import Fabric.Proofs.RouteTree.Flattening
import Fabric.Proofs.RouteText.OfTree
import Fabric.Proofs.RouteText.Mentions
import Fabric.Proofs.Export.Coverage
import Fabric.Proofs.Netlist.PartitionPins
import Fabric.Proofs.Record.PartitionPins
import Fabric.Proofs.Export.Outcome
import Fabric.Proofs.RouteText.Grafting
import Fabric.Proofs.Record.Registering
import Fabric.Proofs.Intersite.Calls
import Fabric.Proofs.Record.Departures
import Fabric.Proofs.Netlist.PortRewiring
import Fabric.Proofs.Record.PortRewiring
import Fabric.Proofs.Record.InsideSites
import Fabric.Proofs.Netlist.Joining
