import TagWire.Main
import TagWire.Tagged.Decode
import TagWire.Proofs.Stream.Supply
import TagWire.Proofs.Tagged.Format
import TagWire.Proofs.Tagged.Reading
import TagWire.Proofs.Tagged.Truncation
import TagWire.Proofs.Tagged.Contribution
import TagWire.Proofs.Tagged.Encoding
import TagWire.Proofs.Tagged.RoundTrip
import TagWire.Proofs.Tagged.Acceptance
import TagWire.Proofs.Layout.Declared
import TagWire.Proofs.Layout.Readers
import TagWire.Proofs.Layout.Heads
import TagWire.Proofs.Layout.Loops
import TagWire.Proofs.Layout.Parsing
import TagWire.Proofs.Layout.Compiled
import TagWire.Proofs.Layout.Respelling
import TagWire.Proofs.Layout.Locality
import TagWire.Proofs.Layout.Pruning
import TagWire.Proofs.Layout.Unseen
import TagWire.Proofs.Decoder.OnePass
import TagWire.Proofs.Decoder.Tracking
import TagWire.Proofs.Decoder.Agenda
import TagWire.Proofs.Decoder.Chunking
import TagWire.Proofs.Decoder.Streaming
import TagWire.Proofs.Decoder.Silence
import TagWire.Proofs.Decoder.Places
import TagWire.Proofs.Decoder.Moves
import TagWire.Proofs.Decoder.Values
import TagWire.Proofs.Decoder.Delimiting
import TagWire.Proofs.Decoder.Fields
import TagWire.Proofs.Decoder.Messages
import TagWire.Proofs.Decoder.Loading
import TagWire.Proofs.Decoder.Turning
import TagWire.Proofs.Encoder.Ranges
import TagWire.Proofs.Encoder.Simulation
import TagWire.Proofs.Encoder.Emission
import TagWire.Proofs.Encoder.Fields
import TagWire.Proofs.Encoder.Recutting
import TagWire.Proofs.Encoder.Invisible
import TagWire.Proofs.Layout.Closing
import TagWire.Proofs.Codec.Undoing
import TagWire.Proofs.Codec.Reversal
import TagWire.Proofs.Codec.Elements
import TagWire.Proofs.Codec.Acceptance
import TagWire.Proofs.Codec.Returning
import TagWire.Proofs.Codec.RoundTrip
import TagWire.Proofs.Codec.Delimiting
import TagWire.Proofs.Codec.Restoring
import TagWire.Proofs.Codec.Rewriting
import TagWire.Proofs.Layout.Sampling
import TagWire.Proofs.Codec.Sampling
import TagWire.Proofs.Grammar.Words
import TagWire.Proofs.Grammar.Types
import TagWire.Proofs.Grammar.Forms
import TagWire.Proofs.Grammar.Heads
import TagWire.Proofs.Grammar.Fields
import TagWire.Proofs.Grammar.Acceptance
import TagWire.Proofs.Grammar.Directives
import TagWire.Proofs.Decoder.Saving
import TagWire.Proofs.Value.Reading
import TagWire.Proofs.Properties.Image
import TagWire.Proofs.Encoder.Promptness
import TagWire.Proofs.Grammar.Origins
import TagWire.Proofs.Decoder.Histories
import TagWire.Proofs.Decoder.Steady
import TagWire.Proofs.Decoder.Passing
import TagWire.Proofs.Decoder.Kept
import TagWire.Proofs.Value.Composing
import TagWire.Proofs.Layout.Sections
import TagWire.Proofs.Layout.Ordering
import TagWire.Proofs.Codec.Dividing
import TagWire.Proofs.Registry
import TagWire.Proofs.Value.Json
import TagWire.Proofs.Codec.InRange
import TagWire.Proofs.Encoder.Tidiness
import TagWire.Proofs.Layout.Calls
import TagWire.Proofs.Properties.Alignment
