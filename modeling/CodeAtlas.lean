import CodeAtlas.CommandLine.Run
import CodeAtlas.Graph.Codec
import CodeAtlas.Graph.Cycles
import CodeAtlas.Html.Reader
import CodeAtlas.Json.Reader
import CodeAtlas.Json.Writer
import CodeAtlas.Live.Board
import CodeAtlas.Live.Codec
import CodeAtlas.Main
import CodeAtlas.Parsing.Basic
import CodeAtlas.Path
import CodeAtlas.Project.Dependency
import CodeAtlas.Project.Filter
import CodeAtlas.Project.Readme
import CodeAtlas.Project.Watch
import CodeAtlas.Proofs.Graph.Cycles
import CodeAtlas.Proofs.Graph.Renaming
import CodeAtlas.Proofs.Html.Conservation
import CodeAtlas.Proofs.Json.RoundTrip
import CodeAtlas.Proofs.Live.Convergence
import CodeAtlas.Proofs.Live.Freshness
import CodeAtlas.Proofs.Live.Grouping
import CodeAtlas.Proofs.Outline.Progression
import CodeAtlas.Proofs.Outline.Rows
import CodeAtlas.Proofs.Outline.Scoping
import CodeAtlas.Proofs.Outline.SelectorText
import CodeAtlas.Proofs.Outline.Walk
import CodeAtlas.Proofs.Project.Following
import CodeAtlas.Proofs.Project.Grid
import CodeAtlas.Proofs.Project.IgnoreList
import CodeAtlas.Proofs.Project.Queries
import CodeAtlas.Proofs.Project.Records
import CodeAtlas.Proofs.Project.Resolution
import CodeAtlas.Proofs.Project.TreeLines
import CodeAtlas.Proofs.Session.ActiveFile
import CodeAtlas.Proofs.Session.Excursions
import CodeAtlas.Settings
import CodeAtlas.Shell
import CodeAtlas.Snapshot
import CodeAtlas.SourceTree
import CodeAtlas.Text.Blank
