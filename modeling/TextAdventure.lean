import TextAdventure.Main
import TextAdventure.Proofs.World.Change
import TextAdventure.Proofs.Program.Discipline
import TextAdventure.Proofs.Program.Transition
import TextAdventure.Proofs.Play.Reachable
import TextAdventure.Proofs.Program.Scoping
import TextAdventure.Proofs.Source.Grammar
import TextAdventure.Proofs.Source.Reading
import TextAdventure.Proofs.Source.RoundTrip
import TextAdventure.Proofs.Program.Fuel
import TextAdventure.Proofs.Program.Balance
import TextAdventure.Proofs.Program.Boundary
import TextAdventure.Proofs.Play.Actions
import TextAdventure.Proofs.Program.Extent
import TextAdventure.Proofs.Program.Handles
import TextAdventure.Proofs.Play.Closure
import TextAdventure.Proofs.Command.Reference
import TextAdventure.Proofs.Program.Permanence
import TextAdventure.Proofs.Source.Displacement
import TextAdventure.Proofs.Source.Place
import TextAdventure.Proofs.Source.Bounds
import TextAdventure.Proofs.Source.Recovery
import TextAdventure.Proofs.Source.Likeness
import TextAdventure.Proofs.Program.Pairing
import TextAdventure.Proofs.Program.Simulation
import TextAdventure.Proofs.Program.Propagation
import TextAdventure.Proofs.Program.ShortCircuit
import TextAdventure.Proofs.World.Numbering
import TextAdventure.Proofs.Game.Agreement
import TextAdventure.Proofs.Game.Interleaving
import TextAdventure.Proofs.Source.Tiling
import TextAdventure.Proofs.Source.Spelling
import TextAdventure.Proofs.Source.Units
import TextAdventure.Proofs.Play.Slots
import TextAdventure.Proofs.Number.Rounding
import TextAdventure.Proofs.Program.Comparison
import TextAdventure.Proofs.Command.Places
import TextAdventure.Proofs.Play.Naming
import TextAdventure.Proofs.Game.Literals
import TextAdventure.Proofs.World.Moving
import TextAdventure.Proofs.Game.Phases
import TextAdventure.Proofs.World.InPlace
import TextAdventure.Proofs.Game.PreEvaluation
import TextAdventure.Proofs.Game.Inert
import TextAdventure.Proofs.Game.Containment
import TextAdventure.Proofs.World.Packing
import TextAdventure.Proofs.World.History
import TextAdventure.Proofs.World.Marks
import TextAdventure.Proofs.World.Ledger
import TextAdventure.Proofs.World.Siblings
import TextAdventure.Proofs.Program.ChildLoop
import TextAdventure.Proofs.Program.Activation
import TextAdventure.Proofs.Program.Calculation
import TextAdventure.Proofs.Program.Splicing
import TextAdventure.Proofs.Command.VerbPhrase
import TextAdventure.Proofs.Command.Synonyms
import TextAdventure.Proofs.Play.Brackets
import TextAdventure.Proofs.Number.Shortest
import TextAdventure.Proofs.Source.Floats
import TextAdventure.Proofs.Game.CodeFlags
import TextAdventure.Proofs.Program.Printing
import TextAdventure.Proofs.Play.PerformChain
import TextAdventure.Proofs.Source.Numerals
import TextAdventure.Proofs.Play.Respelling
import TextAdventure.Proofs.Source.Blame
import TextAdventure.Proofs.Play.Turns
import TextAdventure.Proofs.Program.Positions
