import ForceDiagram.Main
import ForceDiagram.Window.Session
import ForceDiagram.Proofs.Graph.OfRecords
import ForceDiagram.Proofs.Force.Frame
import ForceDiagram.Proofs.Graph.Shape
import ForceDiagram.Proofs.Simulation.Frame
import ForceDiagram.Proofs.View.Coherence
import ForceDiagram.Proofs.View.Steps
import ForceDiagram.Proofs.Simulation.Gestures
import ForceDiagram.Proofs.View.Gestures
import ForceDiagram.Quadtree.Slots
import ForceDiagram.Proofs.Quadtree.Nest
import ForceDiagram.Proofs.Quadtree.Layout
import ForceDiagram.Proofs.Quadtree.Arranged
import ForceDiagram.Proofs.Quadtree.Pruned
import ForceDiagram.Proofs.Scalar.Counts
import ForceDiagram.Proofs.Force.Sources
import ForceDiagram.Proofs.Window.Events
import ForceDiagram.Proofs.Window.Requests
import ForceDiagram.Proofs.Window.Canvas
import ForceDiagram.Proofs.Window.Screens
import ForceDiagram.Proofs.Window.Drags
import ForceDiagram.Proofs.Force.Renaming
import ForceDiagram.Proofs.Graph.Renaming
import ForceDiagram.Proofs.View.Renaming
import ForceDiagram.Markup.Reading
import ForceDiagram.Proofs.Markup.Escape
import ForceDiagram.Proofs.Markup.Reading
import ForceDiagram.Proofs.Scene.Svg
import ForceDiagram.Proofs.Command.Export
import ForceDiagram.Dataset.Denoting
import ForceDiagram.Proofs.Json.Numeral
import ForceDiagram.Proofs.Json.Strings
import ForceDiagram.Proofs.Json.Reader
import ForceDiagram.Proofs.Dataset.Reading
import ForceDiagram.Proofs.Graph.Register
import ForceDiagram.Proofs.View.Pinned
import ForceDiagram.Proofs.Paint.Drawing
import ForceDiagram.Proofs.Checked.Entries
import ForceDiagram.Proofs.Checked.Bow
import ForceDiagram.Proofs.Checked.Quadtree
import ForceDiagram.Proofs.Checked.Force
import ForceDiagram.Proofs.Checked.View
import ForceDiagram.Proofs.View.Heat
import ForceDiagram.Proofs.Scalar.Order
import ForceDiagram.Proofs.Quadtree.Covered
import ForceDiagram.Proofs.Scene.Legible
import ForceDiagram.Proofs.Scene.Looks
import ForceDiagram.Proofs.Simulation.Loops
import ForceDiagram.Proofs.Dataset.Misfits
import ForceDiagram.Proofs.Quadtree.Near
import ForceDiagram.Proofs.Force.Encounters
import ForceDiagram.Proofs.Scalar.Nearest
import ForceDiagram.Proofs.Scalar.Rounding
import ForceDiagram.Proofs.Scalar.Values
import ForceDiagram.Proofs.Scalar.Isotone
import ForceDiagram.Proofs.Force.Nearby
import ForceDiagram.Proofs.View.Resizing
import ForceDiagram.Proofs.Scene.Contained
import ForceDiagram.Proofs.Scalar.Signs
import ForceDiagram.Proofs.Scalar.Mirrored
import ForceDiagram.Proofs.Scalar.Quotients
import ForceDiagram.Proofs.Scene.Bowing
import ForceDiagram.Proofs.Text.Utf8
import ForceDiagram.Proofs.Window.Dropping
import ForceDiagram.Proofs.Quadtree.Grown
import ForceDiagram.Proofs.View.Samples
