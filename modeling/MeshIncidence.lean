import MeshIncidence.PairTable
import MeshIncidence.IncidenceTable.Transpose
import MeshIncidence.IncidenceTable.Product
import MeshIncidence.IncidenceTable.Text
import MeshIncidence.Datum
import MeshIncidence.Mesh.Grid
import MeshIncidence.Mesh.TabulatedMesh
import MeshIncidence.SetCatalog.Refinement
import MeshIncidence.SetCatalog.Reader
import MeshIncidence.Snapshot
import MeshIncidence.Proofs.Outcome
import MeshIncidence.Proofs.Changes
import MeshIncidence.Proofs.Numbering.Pairs
import MeshIncidence.Proofs.Numbering.Insertions
import MeshIncidence.Proofs.Numbering.Faces
import MeshIncidence.Proofs.Mesh.Soundness
import MeshIncidence.Proofs.Catalog.Binding
import MeshIncidence.Proofs.Refinement.Families
import MeshIncidence.Proofs.Refinement.Template
import MeshIncidence.Proofs.Refinement.Uniform
import MeshIncidence.Proofs.Refinement.Vertices
import MeshIncidence.Proofs.Mesh.Reachable
import MeshIncidence.Proofs.Mesh.Tables
import MeshIncidence.Proofs.Refinement.Pieces
import MeshIncidence.Proofs.Refinement.Intervals
import MeshIncidence.Proofs.Refinement.Coherence
import MeshIncidence.Proofs.Refinement.Extremes
import MeshIncidence.Proofs.Mesh.Lattice
import MeshIncidence.Proofs.Mesh.Grids
import MeshIncidence.Proofs.Refinement.FaceSearch
import MeshIncidence.Proofs.Refinement.Counting
import MeshIncidence.Proofs.Refinement.Growth
import MeshIncidence.Proofs.Refinement.Sharing
import MeshIncidence.Proofs.Refinement.Degrees
import MeshIncidence.Proofs.Catalog.Splitting
import MeshIncidence.Proofs.Catalog.InPlace
import MeshIncidence.Proofs.Catalog.Following
import MeshIncidence.Proofs.Catalog.Rounds
import MeshIncidence.Proofs.Refinement.Conformity
import MeshIncidence.Proofs.SetFile.Reading
import MeshIncidence.Proofs.SetFile.Words
import MeshIncidence.Proofs.SetFile.Names
import MeshIncidence.Proofs.SetFile.Printing
import MeshIncidence.Proofs.SetFile.RoundTrip
import MeshIncidence.Proofs.Snapshot.Capture
import MeshIncidence.Proofs.Snapshot.Descent
import MeshIncidence.Proofs.Snapshot.Stillness
import MeshIncidence.Proofs.Snapshot.Projection
import MeshIncidence.Proofs.Table.Filling
import MeshIncidence.Proofs.Table.Packing
import MeshIncidence.Proofs.Table.Saving
import MeshIncidence.Proofs.Table.TwoPasses
import MeshIncidence.Proofs.Table.Stored
import MeshIncidence.Proofs.Table.Holders
import MeshIncidence.Proofs.Table.Transposes
import MeshIncidence.Proofs.Table.Products
import MeshIncidence.Proofs.Table.ProductPasses
import MeshIncidence.Proofs.Table.Composition
import MeshIncidence.Proofs.Table.Runs
import MeshIncidence.Proofs.SetFile.Progress
import MeshIncidence.Proofs.SetFile.Loading
import MeshIncidence.Proofs.Catalog.Tasks
import MeshIncidence.Proofs.Catalog.KeptTables
import MeshIncidence.Proofs.Catalog.Runs
import MeshIncidence.Proofs.Numbering.FaceInsertions
import MeshIncidence.Proofs.Table.Insertions
import MeshIncidence.Proofs.Table.Reservations
import MeshIncidence.Proofs.Table.Placements
import MeshIncidence.Proofs.Table.Builds
import MeshIncidence.Proofs.Table.Checking
import MeshIncidence.Proofs.Table.Compaction
import MeshIncidence.Proofs.Table.Labels
import MeshIncidence.Proofs.Table.Loading
import MeshIncidence.Proofs.Table.Targets
import MeshIncidence.Proofs.Catalog.Separation
import MeshIncidence.Proofs.Snapshot.Slots
import MeshIncidence.Proofs.SetFile.Composition
import MeshIncidence.Proofs.SetFile.LineEndings
import MeshIncidence.Proofs.SetFile.Locality
import MeshIncidence.Proofs.SetFile.Remarks
import MeshIncidence.Proofs.SetFile.Reprinting
import MeshIncidence.Proofs.Table.Overruns
import MeshIncidence.Proofs.Table.Resizing
import MeshIncidence.Proofs.Catalog.KeptNames
import MeshIncidence.Proofs.Catalog.Registers
import MeshIncidence.Proofs.Catalog.Lookups
