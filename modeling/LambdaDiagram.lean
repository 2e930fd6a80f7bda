import LambdaDiagram.Canvas
import LambdaDiagram.CommandLine.Run
import LambdaDiagram.Main
import LambdaDiagram.Proofs.ArgumentScope
import LambdaDiagram.Proofs.CanvasHistory
import LambdaDiagram.Proofs.FirstFault
import LambdaDiagram.Proofs.Ownership
import LambdaDiagram.Proofs.Precedence
import LambdaDiagram.Proofs.Rearranging
import LambdaDiagram.Proofs.RoundTrip
import LambdaDiagram.Proofs.StageHistory
import LambdaDiagram.Stage
import LambdaDiagram.Term.Printer
import LambdaDiagram.Proofs.Construction
import LambdaDiagram.Proofs.Renaming
import LambdaDiagram.Proofs.RenamedLayout
import LambdaDiagram.Proofs.FlattenedScope
import LambdaDiagram.Proofs.Operations
import LambdaDiagram.Proofs.Changes
import LambdaDiagram.Proofs.Establishing
import LambdaDiagram.Proofs.Sizes
import LambdaDiagram.Proofs.ExactNumbers
import LambdaDiagram.Proofs.RigidMotion
import LambdaDiagram.Proofs.StartingPlaces
import LambdaDiagram.Proofs.Settling
import LambdaDiagram.Proofs.Geometry
import LambdaDiagram.Proofs.Blanks
import LambdaDiagram.Proofs.PrintedDocument
import LambdaDiagram.Proofs.Painting
import LambdaDiagram.Proofs.ExtendedNumbers
import LambdaDiagram.Proofs.Relinking
import LambdaDiagram.Proofs.FloatOrder
import LambdaDiagram.Proofs.FiniteLayout
import LambdaDiagram.Proofs.Delivery
import LambdaDiagram.Proofs.HillClimbing
import LambdaDiagram.Proofs.MergeTargets
import LambdaDiagram.Proofs.Hoisting
import LambdaDiagram.Proofs.Belonging
import LambdaDiagram.Proofs.Conservation
import LambdaDiagram.Proofs.Containment
import LambdaDiagram.Proofs.MovingOnce
import LambdaDiagram.Proofs.ReportedPlaces
import LambdaDiagram.Proofs.FrameBounds
import LambdaDiagram.Proofs.SpiralSums
import LambdaDiagram.Proofs.Siblings
import LambdaDiagram.Proofs.NearestPoint
import LambdaDiagram.Proofs.Markup
import LambdaDiagram.Proofs.ArgumentOrder
import LambdaDiagram.Proofs.Separation
import LambdaDiagram.Proofs.Partners
