import FlatAssembler.Main
import FlatAssembler.Proofs.BaseCoherence
import FlatAssembler.Proofs.PositionIndependence
import FlatAssembler.Proofs.Inclusion
import FlatAssembler.Proofs.Persistence
import FlatAssembler.Proofs.Layout
import FlatAssembler.Proofs.Blame
import FlatAssembler.Proofs.LineGrammar
import FlatAssembler.Proofs.CanonicalLine
import FlatAssembler.Proofs.Termination
import FlatAssembler.Proofs.LoadedOnce
import FlatAssembler.Proofs.SymbolHistory
import FlatAssembler.Proofs.Modes
import FlatAssembler.Proofs.Reversal
import FlatAssembler.Proofs.Constancy
import FlatAssembler.Proofs.FileWrites
import FlatAssembler.Proofs.Build
import FlatAssembler.Proofs.BuildOutputs
import FlatAssembler.Proofs.RebaseEffect
import FlatAssembler.Proofs.ListedOutput
import FlatAssembler.Proofs.EmptyArgument
import FlatAssembler.Proofs.ChainGrammar
import FlatAssembler.Proofs.DataLine
import FlatAssembler.Proofs.LiteralGrammar
import FlatAssembler.Proofs.GivenConstants
import FlatAssembler.Proofs.AddressRange
import FlatAssembler.Proofs.LineEndings
import FlatAssembler.Proofs.ScriptConstants
import FlatAssembler.Proofs.SymbolListing
