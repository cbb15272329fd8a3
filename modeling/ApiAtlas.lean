import ApiAtlas.Main
import ApiAtlas.Proofs.Path
import ApiAtlas.Proofs.FileTree.Node
import ApiAtlas.Proofs.FileTree
import ApiAtlas.Proofs.PageNames
import ApiAtlas.Proofs.Pages
import ApiAtlas.Proofs.Workers
import ApiAtlas.Proofs.Extraction
import ApiAtlas.Proofs.Service
import ApiAtlas.Proofs.Walk
import ApiAtlas.Proofs.RootName
import ApiAtlas.Proofs.FileTree.Order
import ApiAtlas.Proofs.Locations
import ApiAtlas.Proofs.FileTree.Faces
import ApiAtlas.Proofs.Survey
import ApiAtlas.Proofs.FileTree.Ways
import ApiAtlas.Proofs.PageRun
import ApiAtlas.Proofs.Rerun
import ApiAtlas.Proofs.Documents
import ApiAtlas.Proofs.Json.Reader
import ApiAtlas.Proofs.Json.Record
import ApiAtlas.Proofs.FileTree.Writing
import ApiAtlas.Proofs.FileTree.Plus
import ApiAtlas.Proofs.Json.Text
import ApiAtlas.Proofs.Json.Writing
import ApiAtlas.Proofs.Wire
import ApiAtlas.Proofs.ModelFile
import ApiAtlas.Proofs.Routes
import ApiAtlas.Proofs.Edits
import ApiAtlas.Proofs.Requests
import ApiAtlas.Proofs.Containers
import ApiAtlas.Proofs.PageRoom
import ApiAtlas.Proofs.Interleaving
import ApiAtlas.Proofs.Bullets
import ApiAtlas.Proofs.Entries
import ApiAtlas.Proofs.Framing
import ApiAtlas.Proofs.Components
import ApiAtlas.Proofs.FileTree.Confined
import ApiAtlas.Proofs.Footprint
import ApiAtlas.Proofs.Scan.Reading
import ApiAtlas.Proofs.Scan.Hits
import ApiAtlas.Proofs.Scan.Returns
import ApiAtlas.Proofs.Scan.LineBreaks
import ApiAtlas.Proofs.Scan.Classes
import ApiAtlas.Proofs.Scan.Members
import ApiAtlas.Proofs.Relay
import ApiAtlas.Proofs.NameSearch
import ApiAtlas.Proofs.Filling
import ApiAtlas.Proofs.Scan.Fronts
import ApiAtlas.Proofs.Scan.Parting
import ApiAtlas.Proofs.Scan.Headings
import ApiAtlas.Proofs.PageTargets
import ApiAtlas.Proofs.Overwriting
import ApiAtlas.Proofs.Stopping
import ApiAtlas.Proofs.PagePlaces
import ApiAtlas.Proofs.Repeating
import ApiAtlas.Proofs.Toml.Strings
import ApiAtlas.Proofs.TryWalk
import ApiAtlas.Proofs.Pruning
import ApiAtlas.Proofs.DocumentListing
import ApiAtlas.Proofs.Toml.Lines
import ApiAtlas.Proofs.SettingsFile
