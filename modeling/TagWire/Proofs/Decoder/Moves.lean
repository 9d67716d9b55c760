import TagWire.Proofs.Decoder.Silence

/-!
# What a pass moves

The parts of a pass by the bytes that they take from the source and the bytes that they deliver,
where they come to their end.

- `Pass.Moves`: the bytes taken and delivered between two ledgers.
- `Pass.repeated_moves`: data as the sum of its elements.
-/

namespace TagWire

namespace Pass

variable {α : Type}

/-- Between two ledgers bytes have been taken and others delivered. -/
structure Moves (l l' : Ledger) (taken sent : Bytes) : Prop where
  wire : l.wire = taken ++ l'.wire
  delivered : l'.delivered = l.delivered ++ sent

namespace Moves

variable {l l' l'' : Ledger} {taken sent taken' sent' : Bytes}

theorem refl (l : Ledger) : Moves l l [] [] := ⟨rfl, (List.append_nil _).symm⟩

theorem trans (first : Moves l l' taken sent) (further : Moves l' l'' taken' sent') :
    Moves l l'' (taken ++ taken') (sent ++ sent') where
  wire := by rw [first.wire, further.wire, List.append_assoc]
  delivered := by rw [further.delivered, first.delivered, List.append_assoc]

end Moves

theorem exactly_moves {origin : String} {n : Nat} {l l' : Ledger} {bytes : Bytes}
    (h : (exactly origin n).run l = (.ok bytes, l')) : bytes.length = n ∧ Moves l l' bytes [] := by
  obtain ⟨size, split, left⟩ := exactly_ok h
  refine ⟨size, split, ?_⟩
  rw [left]
  exact (List.append_nil _).symm

theorem deliver_moves {bytes : Bytes} {l l' : Ledger} (h : (deliver bytes).run l = (.ok (), l')) :
    Moves l l' [] bytes := by
  cases h
  exact ⟨rfl, rfl⟩

theorem forward_moves {origin : String} {n : Nat} {l l' : Ledger}
    (h : (forward origin n).run l = (.ok (), l')) :
    ∃ bytes, bytes.length = n ∧ Moves l l' bytes bytes := by
  rw [run_forward] at h
  split at h
  · rename_i enough
    cases h
    exact ⟨l.wire.take n, List.length_take_of_le enough, (List.take_append_drop n l.wire).symm, rfl⟩
  · cases h

theorem length_moves {origin : String} {n : Nat} {l l' : Ledger}
    (h : (length origin).run l = (.ok n, l')) :
    ∃ w : Word, w.length? = some n ∧ Moves l l' w.toBytes [] := by
  obtain ⟨bytes, l₁, taken, h⟩ := bind_ok h
  obtain ⟨size, moves⟩ := exactly_moves taken
  dsimp only at h
  cases told : (Word.ofBytes bytes).length? with
  | none =>
    rw [told] at h
    cases h
  | some m =>
    rw [told] at h
    cases h
    refine ⟨Word.ofBytes bytes, told, ?_⟩
    rwa [Word.toBytes_ofBytes size]

theorem lengthBytes_eq {w : Word} {n : Nat} (h : w.length? = some n) :
    Task.lengthBytes n = w.toBytes := by
  rw [Task.lengthBytes, Word.toBytes, (Word.toNat_of_length h).1]

theorem text_moves {origin : String} {l l' : Ledger} (h : (text origin).run l = (.ok (), l')) :
    ∃ (w : Word) (bytes : Bytes), w.length? = some bytes.length ∧
      Moves l l' (w.toBytes ++ bytes) (w.toBytes ++ bytes) := by
  obtain ⟨n, l₁, measured, h⟩ := bind_ok h
  obtain ⟨_, l₂, sent, h⟩ := bind_ok h
  obtain ⟨w, told, length⟩ := length_moves measured
  obtain ⟨bytes, rfl, body⟩ := forward_moves h
  have moved := length.trans ((deliver_moves sent).trans body)
  rw [lengthBytes_eq told] at moved
  exact ⟨w, bytes, told, moved⟩

theorem converted_moves {p : Payload} {l l' : Ledger}
    (h : (do deliver (← element p)).run l = (.ok (), l')) :
    ∃ wire bytes, wire.length = p.wireSize?.getD 0 ∧ Task.tagged p wire = .ok bytes ∧
      Moves l l' wire bytes := by
  obtain ⟨bytes, l₁, read, sent⟩ := bind_ok h
  obtain ⟨wire, size, tagged, split, left⟩ := element_ok read
  refine ⟨wire, bytes, size, tagged, ?_⟩
  have taken : Moves l l₁ wire [] := by
    refine ⟨split, ?_⟩
    rw [left]
    exact (List.append_nil _).symm
  have moved := taken.trans (deliver_moves sent)
  rwa [List.append_nil] at moved

/-- What is repeated moves the sum of what is moved each time. -/
theorem repeated_moves {part : Pass Unit} {P : Bytes → Bytes → Prop}
    (single : ∀ l l', part.run l = (.ok (), l') →
      ∃ taken sent, P taken sent ∧ Moves l l' taken sent)
    {n : Nat} {l l' : Ledger} (h : (repeated part n).run l = (.ok (), l')) :
    ∃ elements : List (Bytes × Bytes), elements.length = n ∧ (∀ e ∈ elements, P e.1 e.2) ∧
      Moves l l' (elements.flatMap Prod.fst) (elements.flatMap Prod.snd) := by
  induction n generalizing l with
  | zero =>
    cases h
    exact ⟨[], rfl, fun _ member => absurd member List.not_mem_nil, .refl _⟩
  | succ n ih =>
    obtain ⟨_, l₁, first, h⟩ := bind_ok h
    obtain ⟨taken, sent, holds, moves⟩ := single l l₁ first
    obtain ⟨elements, rfl, all_hold, further⟩ := ih h
    refine ⟨(taken, sent) :: elements, rfl, ?_, moves.trans further⟩
    rintro e (_ | ⟨_, member⟩)
    · exact holds
    · exact all_hold e member

/-- Data that is hidden in the message delivers nothing. -/
theorem hide_moves {p : Payload} {l l' : Ledger} (h : (hide p).run l = (.ok (), l')) :
    ∃ taken, Moves l l' taken [] := by
  have kept := keeps_hide p l
  have silent := (silent_hide p).delivered_eq l
  rw [h] at kept silent
  obtain ⟨taken, split⟩ := kept.wire
  exact ⟨taken, split.symm, silent.trans (List.append_nil _).symm⟩

theorem loaded_moves {name origin : String} {literal : Option Int64} {size : Nat} {l l' : Ledger}
    (h : (loaded name origin literal size).run l = (.ok (), l')) :
    ∃ v : Int64, (literal <|> l.properties.int? name) = some v ∧
      Moves l l' [] (Bytes.ofInt size v.toInt) := by
  rw [loaded, run_bind_ok (Reading.run_get l)] at h
  cases value : (literal <|> l.properties.int? name) with
  | none =>
    rw [value] at h
    cases h
  | some v =>
    rw [value] at h
    exact ⟨v, rfl, deliver_moves h⟩

end Pass

end TagWire
