import Mathlib.Logic.Relation
import TagWire.Proofs.Encoder.Checked
import TagWire.Proofs.Encoder.Parts

/-!
# What a walk does to an encoder

A walk is made of three moves: bytes of the message are taken, bytes are made, and something is
remembered. What each move keeps is kept by a walk, whatever its layout is and however it ends.

- `Encoder.Move`: the moves.
- `Encoder.ByMoves`: a part of the walk that is made of moves.
- `Encoder.kept_update`: what a whole walk keeps.
-/

namespace TagWire

namespace Encoder

/-- The encoder with bytes put out that the message does not have. -/
def made (bytes : Bytes) (e : Encoder) : Encoder :=
  { e with
    latest := (Segment.scratch e.scratch.length bytes.length).push e.latest
    scratch := e.scratch ++ bytes }

/-- What is done to an encoder on a walk. -/
inductive Move (e : Encoder) : Encoder → Prop
  | take (n : Nat) (out : Bool) : Move e (e.divided n out)
  | make {bytes : Bytes} (some_made : bytes ≠ []) : Move e (e.made bytes)
  | remember (lastByte : UInt8) (deferred : Option Deferred) (error : Option Error) :
    Move e { e with lastByte, deferred, error }

/-- A part of the walk does nothing but moves, whether or not it fails. -/
def ByMoves {α : Type} (m : Walk α) : Prop := ∀ e, Relation.ReflTransGen Move e (m.run e).2

namespace ByMoves

theorem bind {α β : Type} {m : Walk α} {f : α → Walk β} (first : ByMoves m)
    (rest : ∀ a, ByMoves (f a)) : ByMoves (m >>= f) := by
  intro e
  have moves := first e
  generalize run : m.run e = answer at moves
  obtain ⟨x | a, e'⟩ := answer
  · rw [run_bind_error run]
    exact moves
  · rw [run_bind_ok run]
    exact moves.trans (rest a e')

theorem take (n : Nat) (out : Bool) : ByMoves (Encoder.take n out) := by
  intro e
  have taken : Move e (e.divided n out) := .take n out
  rw [Simulates.run_take]
  dsimp only
  split <;> exact .single taken

theorem emitScratch (bytes : Bytes) : ByMoves (Encoder.emitScratch bytes) := by
  intro e
  unfold Encoder.emitScratch
  split
  · exact .refl
  · rename_i some_made
    exact .single (.make some_made)

theorem of_part {α : Type} {m : Walk α} (part : Part m) : ByMoves m := by
  induction part with
  | done | failed => exact fun _ => .refl
  | bind _ _ first rest => exact first.bind rest
  | take n out => exact take n out
  | emitScratch bytes => exact emitScratch bytes
  | report | remember | defer => exact fun e => .single (.remember _ _ _)
  | byDeferred _ rest => exact fun e => rest e.deferred e
  | byLastByte _ rest => exact fun e => rest e.lastByte e

end ByMoves

theorem moves_note (e : Encoder) (x : Error) : Move e (e.note x) :=
  .remember e.lastByte e.deferred (e.error <|> some x)

theorem moves_checkEnd (e : Encoder) : Relation.ReflTransGen Move e e.checkEnd := by
  unfold checkEnd
  split
  · exact .single (e.moves_note _)
  · exact .refl

/-- A whole walk, from its beginning to its end or to an error. -/
theorem moves_update (e : Encoder) :
    Relation.ReflTransGen Move (start e.layout e.buffer) e.update := by
  have moves := ByMoves.of_part (.passGaps e.layout.gaps) (start e.layout e.buffer)
  unfold update
  generalize (Encoder.passGaps e.layout.gaps).run (start e.layout e.buffer) = answer at moves
  obtain ⟨x | _, e'⟩ := answer
  · exact moves.tail (e'.moves_note x)
  · exact moves.trans e'.moves_checkEnd

/-- What every move keeps holds behind a walk if it holds where the walk begins. -/
theorem kept_update {P : Encoder → Prop} (e : Encoder) (begins : P (start e.layout e.buffer))
    (kept : ∀ e e', Move e e' → P e → P e') : P e.update := by
  have moves := e.moves_update
  generalize e.update = e' at moves
  induction moves with
  | refl => exact begins
  | tail _ move ih => exact kept _ _ move ih

end Encoder

end TagWire
