import Disasm.Dialect.Rules
import Disasm.Export
import Disasm.Main
import Disasm.Proofs.ErrorLocation
import Disasm.Proofs.RoundTrip
import Disasm.Proofs.Tiling
import Disasm.Proofs.Extension
import Disasm.Proofs.Concatenation
import Disasm.Proofs.Linking
import Disasm.Proofs.OnePass
import Disasm.Proofs.JumpResolution
import Disasm.Proofs.Emphasis
import Disasm.Proofs.Notes
import Disasm.Proofs.LiveEdge
import Disasm.Proofs.NeoEdges
import Disasm.Proofs.HexText
import Disasm.Proofs.Listing
import Disasm.Proofs.Recounting
import Disasm.Proofs.NeoListing
import Disasm.Proofs.Limit
import Disasm.Proofs.Survey
import Disasm.Proofs.Registry
import Disasm.Proofs.Toggles
import Disasm.Proofs.Footprints
import Disasm.Proofs.OperandReading
import Disasm.Proofs.TableExtension
import Disasm.Proofs.NeoRelocation
import Disasm.Proofs.HexReading
import Disasm.Proofs.NeoLandmarks
import Disasm.Proofs.OperandCodec
import Disasm.Proofs.NoTraps
import Disasm.Proofs.HexGrammar
import Disasm.Proofs.Pairing
import Disasm.Proofs.TypedViews
import Disasm.Proofs.JsonReading
import Disasm.Proofs.TableContents
import Disasm.Proofs.ExportedText
import Disasm.Proofs.JsonBlanks
import Disasm.Proofs.SettingsText
