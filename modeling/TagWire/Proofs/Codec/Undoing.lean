import TagWire.Proofs.Binary
import TagWire.Proofs.Decoder.Moves
import TagWire.Proofs.Encoder.Emission
import TagWire.Proofs.Layout.Sound

/-!
# Undoing a pass

What a pass has made of external bytes, the strict walk makes into these bytes again, gap by gap.

- `Pass.payload_undone`: the data of a gap.
-/

namespace TagWire

/-- The words that bytes hold, without any bytes behind the last whole one. -/
def Word.allOf : Bytes → List Word
  | a :: b :: c :: d :: rest => ofBytes [a, b, c, d] :: allOf rest
  | _ => []

theorem Word.allOf_append {bytes : Bytes} (size : bytes.length = 4) (rest : Bytes) :
    allOf (bytes ++ rest) = ofBytes bytes :: allOf rest := by
  obtain ⟨a, b, c, d, rfl⟩ := List.length_eq_four.mp size
  rfl

/-- Whether the bits are those of a number, which NaN is not. -/
def Binary.IsNumber (bits : UInt32) : Prop := read single bits.toNat ≠ .nan

instance (bits : UInt32) : Decidable (Binary.IsNumber bits) :=
  inferInstanceAs (Decidable (Binary.read Binary.single bits.toNat ≠ .nan))

/-- The float32 numbers among the external bytes of elements. -/
def Payload.floats (p : Payload) (wire : Bytes) : List UInt32 :=
  if p.conversion = .narrow then Word.allOf wire else []

namespace Pass

open Strict (Puts)

theorem floats_elements {p : Payload} (narrow : p.conversion = .narrow)
    {elements : List (Bytes × Bytes)} (sizes : ∀ e ∈ elements, e.1.length = 4) :
    p.floats (elements.flatMap Prod.fst) = elements.map fun e => Word.ofBytes e.1 := by
  rw [Payload.floats, if_pos narrow]
  induction elements with
  | nil => rfl
  | cons e rest ih =>
    rw [List.flatMap_cons, Word.allOf_append (sizes e List.mem_cons_self), List.map_cons,
      ih fun e member => sizes e (List.mem_cons_of_mem _ member)]

/-- A float32 that was widened is narrowed to itself. -/
theorem narrow_undone {wire : Bytes} (size : wire.length = 4)
    (number : Binary.IsNumber (Word.ofBytes wire)) :
    Puts Strict.passNarrow (Bytes.ofNat 8 (Binary.widen (Word.ofBytes wire)).toNat) wire () := by
  have wide : UInt64.ofNat (Bytes.toNat (Bytes.ofNat 8 (Binary.widen (Word.ofBytes wire)).toNat)) =
      Binary.widen (Word.ofBytes wire) := by
    have bound : (Binary.widen (Word.ofBytes wire)).toNat < Bytes.card 8 := UInt64.toNat_lt _
    rw [Bytes.toNat_ofNat, Nat.mod_eq_of_lt bound, UInt64.ofNat_toNat]
  have narrowed :=
    Strict.puts_passNarrow (Bytes.length_ofNat 8 (Binary.widen (Word.ofBytes wire)).toNat)
  rw [wide, Binary.narrow_widen number] at narrowed
  have wire_eq : Bytes.ofNat 4 (Word.ofBytes wire).toNat = wire := Word.toBytes_ofBytes size
  rwa [wire_eq] at narrowed

/-- An integer that lost its fill is filled up again. -/
theorem padded_undone {p : Payload} {size outer : Nat} {signed : Bool}
    (pad : p.conversion = .pad outer signed) (size_eq : p.kind.size? = some size)
    (less : size < outer) {wire bytes : Bytes} (outer_size : wire.length = outer)
    (tagged : Task.tagged p wire = .ok bytes) :
    Puts (Strict.passPadded size outer signed) bytes wire () := by
  rw [Task.tagged, pad] at tagged
  simp only [size_eq, Option.getD_some] at tagged
  split at tagged
  · rename_i filled
    cases tagged
    have kept_size : (wire.take size).length = size := by
      rw [List.length_take]
      omega
    have some_kept : wire.take size ≠ [] := by
      intro empty
      have := (Kind.size_pos size_eq).1
      rw [empty] at kept_size
      simp at kept_size
      omega
    have fill : wire.drop size =
        List.replicate (outer - size) (padByte signed (wire.take size)) := by
      rw [List.eq_replicate_iff]
      refine ⟨by rw [List.length_drop, outer_size], fun b member => ?_⟩
      exact of_decide_eq_true (List.all_eq_true.mp filled b member)
    have puts := Strict.puts_passPadded kept_size some_kept outer signed
    rwa [← fill, List.take_append_drop] at puts
  · cases tagged

theorem elements_undone {p : Payload} (sound : p.Sound) {n : Nat} {l l' : Ledger}
    (origin : String) (g : Gap) (h : (elements p n).run l = (.ok (), l')) :
    ∃ taken sent, Moves l l' taken sent ∧
      ((∀ bits ∈ p.floats taken, Binary.IsNumber bits) →
        Puts (Strict.passElements origin g p n) sent taken ()) := by
  unfold elements at h
  unfold Strict.passElements
  cases size_eq : p.kind.size? with
  | none =>
    rw [size_eq] at h
    obtain ⟨elements, rfl, texts, moves⟩ := repeated_moves
      (P := fun taken sent => Puts (Strict.passText origin g) sent taken ())
      (fun l l' read => by
        obtain ⟨w, bytes, told, moves⟩ := text_moves read
        exact ⟨_, _, Strict.puts_passText origin g told, moves⟩) h
    exact ⟨_, _, moves, fun _ => Strict.puts_times texts⟩
  | some size =>
    rw [size_eq] at h
    cases conversion : p.conversion with
    | identity =>
      rw [conversion] at h
      obtain ⟨bytes, length, moves⟩ := forward_moves h
      exact ⟨bytes, bytes, moves, fun _ => Strict.puts_pass length true⟩
    | narrow =>
      rw [conversion] at h
      obtain ⟨elements, rfl, converted, moves⟩ := repeated_moves
        (P := fun wire bytes =>
          wire.length = 4 ∧ bytes = Bytes.ofNat 8 (Binary.widen (Word.ofBytes wire)).toNat)
        (fun l l' read => by
          obtain ⟨wire, bytes, size, tagged, moves⟩ := converted_moves read
          rw [Payload.wireSize?, size_eq, conversion] at size
          rw [Task.tagged, conversion] at tagged
          cases tagged
          exact ⟨wire, _, ⟨size, rfl⟩, moves⟩) h
      refine ⟨_, _, moves, fun numbers => Strict.puts_times fun e member => ?_⟩
      rw [floats_elements conversion fun e member => (converted e member).1] at numbers
      rw [(converted e member).2]
      exact narrow_undone (converted e member).1 (numbers _ (List.mem_map_of_mem member))
    | pad outer signed =>
      rw [conversion] at h
      obtain ⟨_, _, same, less, _⟩ := sound.pad conversion
      obtain rfl := Option.some.inj (size_eq.symm.trans same)
      obtain ⟨elements, rfl, converted, moves⟩ := repeated_moves
        (P := fun wire bytes => Puts (Strict.passPadded size outer signed) bytes wire ())
        (fun l l' read => by
          obtain ⟨wire, bytes, outer_size, tagged, moves⟩ := converted_moves read
          rw [Payload.wireSize?, size_eq, conversion] at outer_size
          exact ⟨wire, bytes, padded_undone conversion size_eq less outer_size tagged, moves⟩) h
      exact ⟨_, _, moves, fun _ => Strict.puts_times converted⟩

end Pass

/-- The external bytes of data that are put out again. -/
def Payload.exchanged (p : Payload) (wire : Bytes) : Bytes := if p.use.isHidden then [] else wire

/-- The float32 numbers among the external bytes of data that stand for float64 numbers of the
message. -/
def Payload.numbers (p : Payload) (wire : Bytes) : List UInt32 :=
  if p.use = .exchanged then p.floats (if p.count = .fromWire then wire.drop 4 else wire) else []

/-- A gap with the external bytes that a pass has read for it. -/
structure Span where
  gap : Gap
  bytes : Bytes
  deriving DecidableEq, Repr

namespace Span

/-- The bytes of the span that are put out again. -/
def exchanged (s : Span) : Bytes := if s.gap.isHidden then [] else s.bytes

/-- The float32 numbers of the span that stand for float64 numbers of the message. -/
def numbers (s : Span) : List UInt32 := (s.gap.payload?.map fun p => p.numbers s.bytes).getD []

end Span

namespace Pass

open Strict (Puts)

theorem payload_undone {p : Payload} (sound : p.Sound) {l l' : Ledger} (origin : String) (g : Gap)
    (h : (payload p).run l = (.ok (), l')) :
    ∃ taken sent, Moves l l' taken sent ∧
      ((∀ bits ∈ p.numbers taken, Binary.IsNumber bits) →
        Puts (Strict.passPayload origin g p) sent (p.exchanged taken) ()) := by
  unfold payload at h
  unfold Strict.passPayload Payload.numbers Payload.exchanged
  cases use : p.use with
  | skipped | saved =>
    rw [use] at h
    obtain ⟨taken, moves⟩ := hide_moves h
    exact ⟨taken, [], moves, fun _ => Puts.done ()⟩
  | loaded name literal =>
    rw [use] at h
    obtain ⟨v, -, moves⟩ := loaded_moves h
    exact ⟨[], _, moves, fun _ => Strict.puts_pass (Bytes.length_ofInt _ _) false⟩
  | exchanged =>
    rw [use] at h
    dsimp only at h ⊢
    cases count : p.count with
    | fixed n =>
      rw [count] at h
      obtain ⟨taken, sent, moves, puts⟩ := elements_undone sound origin g h
      exact ⟨taken, sent, moves, puts⟩
    | fromWire =>
      rw [count] at h
      obtain ⟨n, l₁, measured, h⟩ := bind_ok h
      obtain ⟨_, l₂, delivered, h⟩ := bind_ok h
      obtain ⟨w, told, length⟩ := length_moves measured
      obtain ⟨taken, sent, moves, puts⟩ := elements_undone sound origin g h
      have moved := length.trans ((deliver_moves delivered).trans moves)
      rw [lengthBytes_eq told] at moved
      refine ⟨_, _, moved, fun numbers => (Strict.puts_takeLength origin g told).bind (puts ?_)⟩
      simpa [List.drop_left' w.length_toBytes] using numbers

theorem gap_undone (layout : Layout) {g : Gap} (sound : ∀ p, g.payload? = some p → p.Sound)
    {l l' : Ledger} (h : (gap g).run l = (.ok (), l')) :
    ∃ taken sent, Moves l l' taken sent ∧
      ((∀ bits ∈ (Span.mk g taken).numbers, Binary.IsNumber bits) →
        Puts (Strict.passGap layout g) sent (Span.mk g taken).exchanged ()) := by
  obtain ⟨words, content⟩ := g
  have checked := Strict.puts_words (layout.originOf ⟨words, content⟩) words
  cases content with
  | nothing => exact ⟨[], _, deliver_moves h, fun _ => checked.bind_silent (Puts.done ())⟩
  | derivation derivation origin =>
    obtain ⟨_, l₁, derived, h⟩ := bind_ok h
    have silent : Moves l l₁ [] [] := by
      rw [run_derive] at derived
      split at derived
      · cases derived
        exact ⟨rfl, (List.append_nil _).symm⟩
      · cases derived
    exact ⟨[], _, silent.trans (deliver_moves h), fun _ => checked.bind_silent (Puts.done ())⟩
  | data p =>
    obtain ⟨_, l₁, delivered, h⟩ := bind_ok h
    obtain ⟨taken, sent, moves, puts⟩ :=
      payload_undone (sound p rfl) (layout.originOf ⟨words, .data p⟩) ⟨words, .data p⟩ h
    exact ⟨taken, _, (deliver_moves delivered).trans moves, fun numbers =>
      checked.bind (puts numbers)⟩

/-- The spans of gaps under a pass. -/
def spans : List Gap → Ledger → List Span
  | [], _ => []
  | g :: rest, l =>
    let next := ((gap g).run l).2
    ⟨g, l.wire.take (l.wire.length - next.wire.length)⟩ :: spans rest next

theorem Moves.taken_eq {l l' : Ledger} {taken sent : Bytes} (moves : Moves l l' taken sent) :
    l.wire.take (l.wire.length - l'.wire.length) = taken := by
  rw [moves.wire, List.length_append, Nat.add_sub_cancel, List.take_left]

theorem gaps_undone (layout : Layout) {gaps : List Gap}
    (sound : ∀ g ∈ gaps, ∀ p, g.payload? = some p → p.Sound) {l l' : Ledger}
    (h : (Pass.gaps gaps).run l = (.ok (), l')) :
    ∃ sent, Moves l l' ((spans gaps l).flatMap Span.bytes) sent ∧
      ((∀ s ∈ spans gaps l, ∀ bits ∈ s.numbers, Binary.IsNumber bits) →
        Puts (Strict.passGaps layout gaps) sent ((spans gaps l).flatMap Span.exchanged) ()) := by
  induction gaps generalizing l with
  | nil =>
    cases h
    exact ⟨[], .refl _, fun _ => Puts.done ()⟩
  | cons g rest ih =>
    obtain ⟨_, l₁, first, h⟩ := bind_ok h
    obtain ⟨taken, sent, moves, puts⟩ := gap_undone layout (sound g List.mem_cons_self) first
    obtain ⟨sent', moves', puts'⟩ := ih (fun g member => sound g (List.mem_cons_of_mem _ member)) h
    have spans_eq : spans (g :: rest) l = ⟨g, taken⟩ :: spans rest l₁ := by
      rw [spans, first, moves.taken_eq]
    rw [spans_eq]
    refine ⟨sent ++ sent', moves.trans moves', fun numbers => ?_⟩
    exact (puts (numbers _ List.mem_cons_self)).bind (puts' fun s member =>
      numbers s (List.mem_cons_of_mem _ member))

end Pass

/-- The spans of the gaps of a layout under a single pass. -/
def Layout.spans (l : Layout) (contents : Contents) (properties : Properties) : List Span :=
  Pass.spans l.gaps { contents, properties }

end TagWire
