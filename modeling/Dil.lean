import Dil.Heap.Equality
import Dil.Main
import Dil.Proofs.Heap.Cells
import Dil.Proofs.Regime
import Dil.Proofs.Heap.Paths
import Dil.Proofs.Value.Results
import Dil.Proofs.Heap.Growth
import Dil.Proofs.Eval.Frame
import Dil.Proofs.Eval.Growth
import Dil.Proofs.Session.Moves
import Dil.Proofs.Session.Runs
import Dil.Proofs.Heap.Lookups
import Dil.Proofs.Session.Lookups
import Dil.Proofs.Session.Schema
import Dil.Proofs.Agreement
import Dil.Proofs.Pairing.Basic
import Dil.Proofs.Pairing.Heaps
import Dil.Proofs.Pairing.Paths
import Dil.Proofs.Pairing.Eval
import Dil.Proofs.Pairing.Instances
import Dil.Proofs.Pairing.Runs
import Dil.Proofs.Eval.Additions
import Dil.Proofs.Session.Atomicity
import Dil.Proofs.Peg.Depth
import Dil.Proofs.Session.Evolution
import Dil.Proofs.Layout
import Dil.Proofs.Grammar.Bounds
import Dil.Proofs.Peg.Bare
import Dil.Proofs.Peg.Choices
import Dil.Proofs.Reading.Calculus
import Dil.Proofs.Reading.Expressions
import Dil.Proofs.Reading.Statements
import Dil.Proofs.Eval.Makes
import Dil.Proofs.Eval.Places
import Dil.Proofs.Peg.Shape
import Dil.Proofs.Reading.Fields
import Dil.Proofs.Reading.Scripts
import Dil.Proofs.Render.Literal
import Dil.Proofs.Render.ReadBack
import Dil.Proofs.Heap.Bisimilarity
import Dil.Proofs.Eval.Circularity
import Dil.Proofs.Session.Loops
import Dil.Proofs.Session.Cuts
import Dil.Proofs.Session.Places
import Dil.Proofs.Relayout.Sources
import Dil.Proofs.Seam.Expressions
import Dil.Proofs.Session.Targets
import Dil.Proofs.Render.Markers
import Dil.Proofs.Syntax.Precedence
import Dil.Proofs.Syntax.Nested
import Dil.Proofs.Slice.Scripts
import Dil.Proofs.Text.Escapes
import Dil.Proofs.Render.Document
import Dil.Proofs.Render.Renderings
import Dil.Proofs.Checks.Scripts
import Dil.Proofs.Session.Culprits
import Dil.Proofs.Value.Comparison
import Dil.Proofs.Value.Arithmetic
import Dil.Proofs.Session.ResultLines
import Dil.Proofs.Value.Casts
import Dil.Proofs.Reading.Integers
import Dil.Proofs.Slice.Integers
import Dil.Proofs.Slice.Quoted
