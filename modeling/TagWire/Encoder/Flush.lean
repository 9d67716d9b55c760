import TagWire.Encoder.Basic
import TagWire.Sink

/-!
# Writing out

What an encoder has put out can be written to a sink range by range, without a copy of the whole.
-/

namespace TagWire.Encoder

/-- Writes the ranges in order. -/
def writeTo {σ : Type} [ByteSink σ] (e : Encoder) : Writing σ Unit :=
  e.segments.forM fun s => Writing.all (e.segmentBytes s)

end TagWire.Encoder
