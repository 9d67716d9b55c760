import TagWire.Proofs.Decoder.Fields

/-!
# What a pass turns into tagged bytes

The parts of a pass by external bytes that are sure to bring them to their end, and what is
delivered for these.

- `Pass.Turns`: a part of a pass takes some bytes and delivers others.
- `Pass.field`, `Pass.fields`: the pass over a field, and over several.
- `Pass.layOut_fields`: a pass over gaps is a pass over fields.
-/

namespace TagWire.Pass

variable {α β : Type}

/-- From every ledger with `wire` before it, the part of the pass takes `wire`, delivers `sent` and
gives `a`. -/
def Turns (p : Pass α) (wire sent : Bytes) (a : α) : Prop :=
  ∀ l rest, l.wire = wire ++ rest →
    ∃ l', p.run l = (.ok a, l') ∧ l'.wire = rest ∧ l'.delivered = l.delivered ++ sent

namespace Turns

theorem done (a : α) :
    Turns (pure a) [] [] a := fun l _ split => ⟨l, rfl, split, (List.append_nil _).symm⟩

theorem bind {p : Pass α} {q : α → Pass β} {wire more sent further : Bytes} {a : α} {b : β}
    (first : Turns p wire sent a) (second : Turns (q a) more further b) :
    Turns (p >>= q) (wire ++ more) (sent ++ further) b := by
  intro l rest split
  rw [List.append_assoc] at split
  obtain ⟨l₁, run, wire₁, delivered₁⟩ := first l (more ++ rest) split
  obtain ⟨l₂, run', wire₂, delivered₂⟩ := second l₁ rest wire₁
  refine ⟨l₂, (run_bind_ok run).trans run', wire₂, ?_⟩
  rw [delivered₂, delivered₁, List.append_assoc]

/-- A part of a pass, and behind it one that neither takes nor delivers anything. -/
theorem bind_silent {p : Pass α} {q : α → Pass β} {wire sent : Bytes} {a : α} {b : β}
    (first : Turns p wire sent a) (second : Turns (q a) [] [] b) : Turns (p >>= q) wire sent b := by
  have both := first.bind second
  rwa [List.append_nil, List.append_nil] at both

end Turns

theorem deliver_turns (bytes : Bytes) :
    Turns (deliver bytes) [] bytes () := fun l _ split => ⟨_, run_deliver bytes l, split, rfl⟩

/-- A part of a pass behind bytes that are delivered as they are. -/
theorem Turns.behind {p : Pass Unit} {wire sent : Bytes} (turns : p.Turns wire sent ())
    (bytes : Bytes) :
    Turns (do deliver bytes; p) wire (bytes ++ sent) () :=
  (deliver_turns bytes).bind (q := fun _ => p) turns

theorem exactly_turns (origin : String) {wire : Bytes} {n : Nat} (size : wire.length = n) :
    Turns (exactly origin n) wire [] wire := by
  intro l rest split
  have enough : n ≤ l.wire.length := by
    rw [split, List.length_append]
    omega
  refine ⟨l.withWire rest, ?_, rfl, (List.append_nil _).symm⟩
  rw [run_exactly, if_pos enough, split, List.take_left' size, List.drop_left' size]

theorem forward_turns (origin : String) {wire : Bytes} {n : Nat} (size : wire.length = n) :
    Turns (forward origin n) wire wire () := by
  intro l rest split
  have enough : n ≤ l.wire.length := by
    rw [split, List.length_append]
    omega
  refine ⟨{ l.withWire rest with delivered := l.delivered ++ wire }, ?_, rfl, rfl⟩
  rw [run_forward, if_pos enough, split, List.take_left' size, List.drop_left' size]

theorem length_turns (origin : String) {w : Word} {n : Nat} (told : w.length? = some n) :
    Turns (length origin) w.toBytes [] n := by
  apply (exactly_turns origin w.length_toBytes).bind_silent
  rw [Word.ofBytes_toBytes]
  dsimp only
  rw [told]
  exact .done n

theorem text_turns (origin : String) {w : Word} {text : Bytes}
    (told : w.length? = some text.length) :
    Turns (Pass.text origin) (w.toBytes ++ text) (w.toBytes ++ text) () := by
  have telling : Turns (do deliver (Task.lengthBytes text.length); forward origin text.length) text
      (w.toBytes ++ text) () := by
    rw [lengthBytes_eq told]
    exact (forward_turns origin rfl).behind w.toBytes
  exact (length_turns origin told).bind telling

theorem converted_turns {p : Payload} {wire sent : Bytes} (size : wire.length = p.wireSize?.getD 0)
    (tagged : Task.tagged p wire = .ok sent) : Turns (do deliver (← element p)) wire sent () := by
  have read : Turns (element p) wire [] sent := by
    apply (exactly_turns p.origin size).bind_silent
    rw [tagged]
    exact .done sent
  have both := read.bind (deliver_turns sent)
  rwa [List.append_nil, List.nil_append] at both

theorem counted_turns {p : Payload} {w : Word} {n : Nat} (told : w.length? = some n)
    {wire sent : Bytes} (turns : (elements p n).Turns wire sent ()) :
    (counted p).Turns (w.toBytes ++ wire) (w.toBytes ++ sent) () := by
  have telling : Turns (do deliver (Task.lengthBytes n); elements p n) wire (w.toBytes ++ sent)
      () := by
    rw [lengthBytes_eq told]
    exact turns.behind w.toBytes
  exact (length_turns p.origin told).bind (q := fun n =>
    do deliver (Task.lengthBytes n); elements p n) telling

theorem deliver_append (bytes more : Bytes) :
    deliver (bytes ++ more) = (do deliver bytes; deliver more) := by
  funext l
  change (Except.ok (), { l with delivered := l.delivered ++ (bytes ++ more) }) =
    (Except.ok (), { l with delivered := l.delivered ++ bytes ++ more })
  rw [List.append_assoc]

theorem deliver_nil : deliver [] = pure () := by
  funext l
  change (Except.ok (), { l with delivered := l.delivered ++ [] }) = (Except.ok (), l)
  rw [List.append_nil]

mutual

/-- The pass over a field, with its tag words where it stands. -/
def field : Field → Pass Unit
  | .derive derivation _ => derive derivation
  | .data words p => do
    deliver (words.flatMap Word.toBytes)
    payload p
  | .group _ words inner => do
    deliver (words.flatMap Word.toBytes)
    fields inner

def fields : List Field → Pass Unit
  | [] => pure ()
  | f :: rest => do
    field f
    fields rest

end

/-- A pass over gaps and the words that wait behind them is one over the words that waited before
them and fields. -/
def Unfolds (made : List Gap × List Word) (waiting : List Word) (p : Pass Unit) : Prop :=
  (do gaps made.1; deliver (made.2.flatMap Word.toBytes)) =
    (do deliver (waiting.flatMap Word.toBytes); p)

theorem unfolds_allGaps {fs : List Field}
    (each : ∀ f ∈ fs, ∀ waiting, Unfolds (f.gaps waiting) waiting (field f)) (waiting : List Word) :
    Unfolds (Field.allGaps waiting fs) waiting (fields fs) := by
  induction fs generalizing waiting with
  | nil => rfl
  | cons f rest ih =>
    have first : _ = _ := each f List.mem_cons_self waiting
    have further : _ = _ :=
      ih (fun f member => each f (List.mem_cons_of_mem _ member)) (f.gaps waiting).2
    rw [Field.allGaps, fields, Unfolds]
    dsimp only
    rw [gaps_append, bind_assoc, further, ← bind_assoc, first, bind_assoc]

theorem unfolds_data (words : List Word) {p : Payload} (exchanged : p.use = .exchanged)
    (waiting : List Word) :
    Unfolds (Field.gaps waiting (.data words p)) waiting (field (.data words p)) := by
  rw [Unfolds, Field.gaps, exchanged, if_neg (by decide), field]
  dsimp only
  rw [List.flatMap_nil, deliver_nil, bind_unit, gaps_single, gap]
  dsimp only [Gap.template]
  rw [List.flatMap_append, deliver_append, bind_assoc]

/-- The gaps of a field without directives, by induction on how it is declared. -/
theorem unfolds_gaps {item : Option Kind} {f : Field} (declared : f.Declared item)
    (plain : f.isPlain = true) (waiting : List Word) :
    Unfolds (f.gaps waiting) waiting (field f) := by
  induction declared generalizing waiting with
  | derive => cases plain
  | hidden | item | scalar => exact unfolds_data _ (of_decide_eq_true plain) waiting
  | vector _ exchanged => exact unfolds_data _ exchanged waiting
  | hiddenGroup => cases plain
  | group declared bound ih =>
    have inner_plain := Field.allPlain_iff.mp plain
    have inner (words : List Word) :=
      unfolds_allGaps (fun f member => ih f member (inner_plain f member)) (waiting ++ words)
    simp only [Unfolds] at inner ⊢
    rw [Field.gaps, field, inner, List.flatMap_append, deliver_append, bind_assoc]

/-- The gaps of a whole section without directives. -/
theorem layOut_fields {item : Option Kind} {fs : List Field} (declared : ∀ f ∈ fs, f.Declared item)
    (plain : Field.allPlain fs = true) (waiting : List Word) :
    gaps (Field.layOut waiting fs) = (do deliver (waiting.flatMap Word.toBytes); fields fs) := by
  have all_plain := Field.allPlain_iff.mp plain
  have unfolds : Unfolds (Field.allGaps waiting fs) waiting (fields fs) :=
    unfolds_allGaps (fun f member => unfolds_gaps (declared f member) (all_plain f member)) waiting
  rw [Field.layOut]
  generalize Field.allGaps waiting fs = made at unfolds
  rw [Unfolds] at unfolds
  dsimp only
  split
  · rename_i none_left
    rwa [none_left, List.flatMap_nil, deliver_nil, bind_unit] at unfolds
  · rw [gaps_append, gaps_single]
    exact unfolds

end TagWire.Pass
