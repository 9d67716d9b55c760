import TagWire.Proofs.Decoder.OnePass

/-!
# Silent parts of a pass

Data that is hidden in the tagged message is read without delivering anything, and without regard to
what has been delivered before.

- `Pass.Silent`: such a part of a pass.
- `Pass.silent_hide`, `Pass.silent_derive`: what is hidden in the tagged message.
-/

namespace TagWire

namespace Pass

variable {α β : Type}

/-- The ledger with other bytes delivered. -/
def withDelivered (bytes : Bytes) (l : Ledger) : Ledger := { l with delivered := bytes }

/-- The part of the pass neither delivers anything nor depends on what has been delivered. -/
def Silent (p : Pass α) : Prop :=
  ∀ l bytes, p.run (withDelivered bytes l) = ((p.run l).1, withDelivered bytes (p.run l).2)

namespace Silent

theorem done (a : α) : Silent (pure a) := fun _ _ => rfl

theorem failed (e : Error) : Silent (throw e : Pass α) := fun _ _ => rfl

theorem bind {p : Pass α} {q : α → Pass β} (first : Silent p) (rest : ∀ a, Silent (q a)) :
    Silent (p >>= q) := by
  intro l bytes
  have moved := first l bytes
  generalize h : p.run l = answer at moved
  obtain ⟨e | a, l'⟩ := answer
  · rw [run_bind_error h, run_bind_error moved]
  · rw [run_bind_ok h, run_bind_ok moved]
    exact rest a l' bytes

theorem delivered_eq {p : Pass α} (silent : Silent p) (l : Ledger) :
    (p.run l).2.delivered = l.delivered := by
  have same := congrArg (fun answer => answer.2.delivered) (silent l l.delivered)
  exact same

end Silent

theorem silent_exactly (origin : String) (n : Nat) : Silent (exactly origin n) := by
  intro l bytes
  rw [run_exactly, run_exactly]
  change (if n ≤ l.wire.length then _ else _) = _
  split <;> rfl

theorem silent_length (origin : String) : Silent (length origin) := by
  apply (silent_exactly origin 4).bind
  intro bytes
  dsimp only
  cases (Word.ofBytes bytes).length? with
  | some n => exact .done n
  | none => exact .failed _

theorem silent_times {p : Pass α} (part : Silent p) (n : Nat) : Silent (times p n) := by
  induction n with
  | zero => exact .done []
  | succ n ih => exact part.bind fun first => ih.bind fun rest => .done (first :: rest)

theorem silent_hiddenElements (p : Payload) (n : Nat) : Silent (hiddenElements p n) := by
  unfold hiddenElements
  cases p.wireSize? with
  | some size => exact silent_exactly p.origin (n * size)
  | none =>
    have element : Silent (do exactly p.origin (← length p.origin)) :=
      (silent_length p.origin).bind fun n => silent_exactly p.origin n
    exact (silent_times element n).bind fun elements => .done elements.flatten

theorem silent_hidden (p : Payload) : Silent (hidden p) := by
  unfold hidden
  cases p.count with
  | fixed n => exact (Silent.done n).bind (silent_hiddenElements p)
  | fromWire => exact (silent_length p.origin).bind (silent_hiddenElements p)

theorem silent_hide (p : Payload) : Silent (hide p) := by
  apply (silent_hidden p).bind
  intro bytes
  cases p.use with
  | saved name => exact fun _ _ => rfl
  | skipped | loaded | exchanged => exact .done ()

theorem silent_derive (derivation : Derivation) : Silent (derive derivation) := by
  intro l bytes
  rw [run_derive, run_derive]
  dsimp only [withDelivered]
  cases l.properties.derive derivation <;> rfl

end Pass

end TagWire
