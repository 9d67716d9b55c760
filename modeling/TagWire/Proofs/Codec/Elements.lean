import TagWire.Proofs.Decoder.Turning
import TagWire.Proofs.Encoder.Fields

/-!
# Elements there and back

The elements of a message that are put out are made into the same elements again, but for the
precision that a float64 loses on its way through a float32.

- `Payload.narrowed`: what an element is when it comes back.
- `Codec.elements_exchanged`: all elements of a piece of data.
-/

namespace TagWire

open Strict (Puts)
open Tagged (Primitive Series encodeBody encodeItems)

/-- A float64 that has been a float32; any other value as it is. -/
def Value.rounded : Value → Value
  | .float64 bits => .float64 (Binary.widen (Binary.narrow bits))
  | v => v

/-- What an element is when it comes back from outside. -/
def Payload.narrowed (p : Payload) (v : Value) : Value :=
  if p.conversion = .narrow then v.rounded else v

theorem Payload.narrowed_eq {p : Payload} (exact : p.conversion ≠ .narrow) (v : Value) :
    p.narrowed v = v := if_neg exact

namespace Tagged

/-- Values of one size take as many times that size. -/
theorem Series.length_fixed {kind : Kind} {size : Nat} (known : kind.size? = some size)
    {bytes : Bytes} {vs : List Value} (series : Series (Primitive kind) bytes vs) :
    bytes.length = vs.length * size := by
  induction series with
  | nil => exact (Nat.zero_mul size).symm
  | cons first _ ih =>
    cases first with
    | fixed known' length =>
      obtain rfl := Option.some.inj (known.symm.trans known')
      rw [List.length_append, length, ih, List.length_cons, Nat.succ_mul, Nat.add_comm]
    | text open_ =>
      rw [known] at open_
      cases open_

end Tagged

namespace Codec

/-- One element is put out by a part of the walk, and made into a primitive again by a part of a
pass. -/
def Exchanges (p : Payload) (walk : Strict Unit) (pass : Pass Unit) : Prop :=
  ∀ {v body}, v.kind? = some p.kind → encodeBody v = .ok body →
    ∃ wire sent, Puts walk body wire () ∧ pass.Turns wire sent () ∧
      Primitive p.kind sent (p.narrowed v)

/-- What holds of one element holds of several. -/
theorem times_exchanged {p : Payload} {walk : Strict Unit} {pass : Pass Unit}
    (each : Exchanges p walk pass) {vs : List Value} (kinds : ∀ v ∈ vs, v.kind? = some p.kind)
    {bytes : Bytes} (encoded : encodeItems true vs = .ok bytes) :
    ∃ wire sent, Puts (Strict.times walk vs.length) bytes wire () ∧
      (Pass.repeated pass vs.length).Turns wire sent () ∧
      Series (Primitive p.kind) sent (vs.map p.narrowed) := by
  induction vs generalizing bytes with
  | nil =>
    cases encoded
    exact ⟨[], [], .done (), .done (), .nil⟩
  | cons v rest ih =>
    obtain ⟨body, others, first, further, rfl⟩ := Tagged.encodeItems_cons encoded
    obtain ⟨wire, sent, puts, turns, primitive⟩ := each (kinds v List.mem_cons_self) first
    obtain ⟨wire', sent', puts', turns', series⟩ :=
      ih (fun v member => kinds v (List.mem_cons_of_mem _ member)) further
    exact ⟨wire ++ wire', sent ++ sent', puts.bind puts', turns.bind turns', .cons primitive series⟩

variable {p : Payload}

theorem text_exchanges (sound : p.Sound) (open_ : p.kind.size? = none) (origin : String) (g : Gap) :
    Exchanges p (Strict.passText origin g) (Pass.text p.origin) := by
  intro v body kind encoded
  have exact : p.conversion ≠ .narrow := by
    intro narrow
    rw [sound.narrow narrow] at open_
    cases open_
  rw [p.narrowed_eq exact]
  have primitive := Tagged.primitive_of_encodeBody kind encoded
  cases primitive with
  | fixed known =>
    rw [known] at open_
    cases open_
  | text _ length =>
    exact ⟨_, _, Strict.puts_passText origin g length, Pass.text_turns p.origin length,
      .text open_ length⟩

theorem float_exchanges (sound : p.Sound) (narrow : p.conversion = .narrow) :
    Exchanges p Strict.passNarrow (do Pass.deliver (← Pass.element p)) := by
  intro v body kind encoded
  have kind_eq := sound.narrow narrow
  rw [kind_eq] at kind
  cases v with
  | float64 bits =>
    cases encoded
    have bound : bits.toNat < Bytes.card 8 := bits.toNat_lt
    have narrow_bound : (Binary.narrow bits).toNat < Bytes.card 4 := (Binary.narrow bits).toNat_lt
    have puts := Strict.puts_passNarrow (Bytes.length_ofNat 8 bits.toNat)
    rw [Bytes.toNat_ofNat, Nat.mod_eq_of_lt bound, UInt64.ofNat_toNat] at puts
    have size : (Bytes.ofNat 4 (Binary.narrow bits).toNat).length = p.wireSize?.getD 0 := by
      rw [Payload.wireSize?, kind_eq, narrow, Bytes.length_ofNat]
      rfl
    have tagged : Task.tagged p (Bytes.ofNat 4 (Binary.narrow bits).toNat) =
        .ok (Value.float64 (Binary.widen (Binary.narrow bits))).payload := by
      rw [Task.tagged, narrow]
      dsimp only
      rw [Bytes.toNat_ofNat, Nat.mod_eq_of_lt narrow_bound, UInt32.ofNat_toNat]
      rfl
    refine ⟨_, _, puts, Pass.converted_turns size tagged, ?_⟩
    rw [kind_eq, Payload.narrowed, if_pos narrow]
    exact Tagged.primitive_of_encodeBody rfl rfl
  | _ => cases kind

/-- An integer that is filled up loses its fill again. -/
theorem padded_turns (sound : p.Sound) {size outer : Nat} {signed : Bool}
    (pad : p.conversion = .pad outer signed) (known : p.kind.size? = some size) {body : Bytes}
    (length : body.length = size) :
    (do Pass.deliver (← Pass.element p)).Turns
      (body ++ List.replicate (outer - size) (padByte signed body)) body () := by
  obtain ⟨_, _, same, less, _⟩ := sound.pad pad
  obtain rfl := Option.some.inj (known.symm.trans same)
  have outer_size : (body ++ List.replicate (outer - size) (padByte signed body)).length =
      p.wireSize?.getD 0 := by
    rw [Payload.wireSize?, known, pad, List.length_append, List.length_replicate, length]
    exact Nat.add_sub_of_le (Nat.le_of_lt less)
  have tagged : Task.tagged p (body ++ List.replicate (outer - size) (padByte signed body)) =
      .ok body := by
    rw [Task.tagged, pad]
    dsimp only
    rw [known, Option.getD_some, List.take_left' length, List.drop_left' length, if_pos (by simp)]
  exact Pass.converted_turns outer_size tagged

theorem padded_exchanges (sound : p.Sound) {size outer : Nat} {signed : Bool}
    (pad : p.conversion = .pad outer signed) (known : p.kind.size? = some size) :
    Exchanges p (Strict.passPadded size outer signed) (do Pass.deliver (← Pass.element p)) := by
  intro v body kind encoded
  have primitive := Tagged.primitive_of_encodeBody kind encoded
  have length : body.length = size := by
    cases primitive with
    | fixed known' length => exact length.trans (Option.some.inj (known'.symm.trans known))
    | text open_ =>
      rw [known] at open_
      cases open_
  have some_bytes : body ≠ [] := by
    have size_pos := (Kind.size_pos known).1
    exact List.ne_nil_of_length_pos (by omega)
  refine ⟨_, body, Strict.puts_passPadded length some_bytes outer signed,
    padded_turns sound pad known length, ?_⟩
  rw [p.narrowed_eq (by simp [pad])]
  exact primitive

/-- The elements of a piece of data are put out, and made into the same elements again. -/
theorem elements_exchanged (sound : p.Sound) (origin : String) (g : Gap) {vs : List Value}
    (kinds : ∀ v ∈ vs, v.kind? = some p.kind) {bytes : Bytes}
    (encoded : encodeItems true vs = .ok bytes) :
    ∃ wire sent, Puts (Strict.passElements origin g p vs.length) bytes wire () ∧
      (Pass.elements p vs.length).Turns wire sent () ∧
        Series (Primitive p.kind) sent (vs.map p.narrowed) := by
  unfold Strict.passElements Pass.elements
  cases known : p.kind.size? with
  | none => exact times_exchanged (text_exchanges sound known origin g) kinds encoded
  | some size =>
    cases conversion : p.conversion with
    | identity =>
      have series := Tagged.series_of_encodeItems kinds encoded
      have length := series.length_fixed known
      have unchanged : vs.map p.narrowed = vs := by
        have exact : p.conversion ≠ .narrow := by rw [conversion]; nofun
        rw [show p.narrowed = id from funext (p.narrowed_eq exact), List.map_id]
      rw [unchanged]
      exact ⟨bytes, bytes, Strict.puts_pass length true, Pass.forward_turns p.origin length, series⟩
    | narrow => exact times_exchanged (float_exchanges sound conversion) kinds encoded
    | pad outer signed =>
      exact times_exchanged (padded_exchanges sound conversion known) kinds encoded

/-- A piece of data that is a single value. -/
theorem single_exchanged (sound : p.Sound) (exchanged : p.use = .exchanged)
    (single : p.count = .fixed 1) (origin : String) (g : Gap) {v : Value}
    (kind : v.kind? = some p.kind) {body : Bytes} (encoded : encodeBody v = .ok body) :
    ∃ wire sent, Puts (Strict.passPayload origin g p) body wire () ∧
      (Pass.payload p).Turns wire sent () ∧
      Primitive p.kind sent (p.narrowed v) := by
  have kinds : ∀ x ∈ [v], x.kind? = some p.kind := by simpa using kind
  obtain ⟨wire, sent, puts, turns, series⟩ :=
    elements_exchanged sound origin g kinds (Tagged.encodeItems_single encoded)
  refine ⟨wire, sent, ?_, ?_, ?_⟩
  · rw [Strict.passPayload, exchanged]
    dsimp only
    rw [single]
    exact puts
  · rw [Pass.payload, exchanged]
    dsimp only
    rw [single]
    exact turns
  · obtain _ | ⟨first, ⟨⟩⟩ := series
    rwa [List.append_nil]

end Codec

end TagWire
