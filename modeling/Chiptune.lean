import Chiptune.Assembly.Dialect
import Chiptune.Assembly.Print
import Chiptune.Channel.Basic
import Chiptune.Channel.Encoding
import Chiptune.Channel.Event
import Chiptune.Chip
import Chiptune.CommandLine
import Chiptune.Compile
import Chiptune.Effect
import Chiptune.Error
import Chiptune.Gzip.Bits
import Chiptune.Gzip.Code
import Chiptune.Gzip.Inflate
import Chiptune.Gzip.Member
import Chiptune.Json.Basic
import Chiptune.Json.Numeral
import Chiptune.Json.Parse
import Chiptune.Json.Print
import Chiptune.Json.Token
import Chiptune.Keyed
import Chiptune.Macro.Param
import Chiptune.Macro.Registry
import Chiptune.Main
import Chiptune.Options
import Chiptune.Output
import Chiptune.Output.Structured
import Chiptune.Platform
import Chiptune.Playback.Macro
import Chiptune.Playback.Player
import Chiptune.Proofs.Driver
import Chiptune.Proofs.Fidelity
import Chiptune.Proofs.Following
import Chiptune.Proofs.Legible
import Chiptune.Proofs.Looping
import Chiptune.Proofs.NoteLength
import Chiptune.Proofs.Operation
import Chiptune.Proofs.Playing
import Chiptune.Proofs.Rendering
import Chiptune.Proofs.RoundTrip
import Chiptune.Proofs.Score
import Chiptune.Proofs.Sharing
import Chiptune.Proofs.Synchrony
import Chiptune.Proofs.Timekeeping
import Chiptune.Proofs.Writing
import Chiptune.Record
import Chiptune.Script.Basic
import Chiptune.Script.Decode
import Chiptune.Script.Encode
import Chiptune.Session
import Chiptune.Song
import Chiptune.Stream.Command
import Chiptune.Stream.Delay
import Chiptune.Stream.Reader
import Chiptune.Text.Digits
import Chiptune.Text.Printable
import Chiptune.Text.Quoted
import Chiptune.Timing
import Chiptune.Warning
import Chiptune.Proofs.Decoding
import Chiptune.Proofs.Dialogue
import Chiptune.Proofs.Stages
import Chiptune.Proofs.Strictness
import Chiptune.Proofs.Registration
import Chiptune.Proofs.Independence
import Chiptune.Proofs.Selection
import Chiptune.Proofs.References
import Chiptune.Proofs.Grammar
import Chiptune.Proofs.Assembler
import Chiptune.Proofs.Linking
import Chiptune.Proofs.Pointers
import Chiptune.Proofs.Refusal
import Chiptune.Proofs.Definitions
import Chiptune.Proofs.Frames
import Chiptune.Proofs.Playhead
import Chiptune.Proofs.Tables
import Chiptune.Proofs.Arpeggio
import Chiptune.Proofs.Drives
import Chiptune.Proofs.Wiring
import Chiptune.Proofs.Retrigger
import Chiptune.Proofs.Timeline
import Chiptune.Proofs.Residue
import Chiptune.Proofs.Keys
import Chiptune.Proofs.Packing
import Chiptune.Proofs.Repacking
import Chiptune.Proofs.Dealing
import Chiptune.Proofs.Operands
import Chiptune.Proofs.Rewinding
