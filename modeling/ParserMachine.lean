import ParserMachine.Bytecode.Listing
import ParserMachine.Position.Json
import ParserMachine.Proofs.DepthLimit
import ParserMachine.Proofs.Machine.Honesty
import ParserMachine.Proofs.Machine.Merging
import ParserMachine.Proofs.Relocation
import ParserMachine.Proofs.Stack.Refinement
import ParserMachine.Proofs.StackLimit
import ParserMachine.Schema
import ParserMachine.TypeTag
import ParserMachine.Proofs.Interchange
import ParserMachine.Proofs.Sequencing
import ParserMachine.Proofs.Choice
import ParserMachine.Proofs.Parser.Locality
import ParserMachine.Proofs.Suffix
import ParserMachine.Proofs.Bytecode.Listing
import ParserMachine.Proofs.Disassembly
import ParserMachine.Proofs.Bytecode.Framing
import ParserMachine.Proofs.Errors
import ParserMachine.Proofs.Abbreviations
import ParserMachine.Proofs.Positions
import ParserMachine.Proofs.Wrappers
import ParserMachine.Proofs.Bytecode.Extent
import ParserMachine.Proofs.Stack.Overflow
import ParserMachine.Proofs.Buffer.Sharing
import ParserMachine.Proofs.StaticDepth
import ParserMachine.Proofs.Machine.Relabelling
import ParserMachine.Proofs.Machine.Scanning
import ParserMachine.Proofs.TypeTag
import ParserMachine.Proofs.Excerpt
