import Mathlib.Data.List.Forall2
import TagWire.Cli.Run
import TagWire.Proofs.Codec.Delimiting

/-!
# Bytes that are one message after the other

Reading message after message comes to an end, because each round takes some bytes. It gives values
just where the bytes divide into messages that are not empty, and there is only one such division.

- `Layout.Divides`: bytes as messages in a row, with their values.
- `Layout.Rounds`: the rounds of reading message after message.
- `Layout.readFrom_iff`: what one round reads and leaves.
- `Layout.readAll_divides`: all rounds, and what the command line prints.
-/

namespace TagWire.Layout

open Tagged (readMessage)

/-- The bytes are these pieces in a row. None of them is empty, and each is the message of the value
in its place. -/
structure Divides (l : Layout) (bytes : Bytes) (pieces : List Bytes) (values : List Value) :
    Prop where
  whole : pieces.flatten = bytes
  some_bytes : ∀ w ∈ pieces, w ≠ []
  read : List.Forall₂ (fun w v => l.read w = .ok v) pieces values

/-- Reading message after message, from bytes that are left and values that are there already. A
round that leaves as many bytes as there were ends it. -/
inductive Rounds (l : Layout) :
    (rounds : Nat) → Bytes → List Value → Except Indivisible (List Value) → Prop
  | done (values : List Value) : Rounds l 0 [] values (.ok values)
  | faulty {bytes rest : Bytes} {values : List Value} {error : Error} (some_left : bytes ≠ [])
      (round : l.readFrom bytes = (.error error, rest)) :
      Rounds l 1 bytes values (.error (.message values.length error))
  | idle {bytes rest : Bytes} {values : List Value} {v : Value} (some_left : bytes ≠ [])
      (round : l.readFrom bytes = (.ok v, rest)) (same : rest.length = bytes.length) :
      Rounds l 1 bytes values (.error (.left bytes.length))
  | further {rounds : Nat} {bytes rest : Bytes} {values : List Value} {v : Value}
      {outcome : Except Indivisible (List Value)} (some_left : bytes ≠ [])
      (round : l.readFrom bytes = (.ok v, rest)) (fewer : rest.length ≠ bytes.length)
      (others : Rounds l rounds rest (values ++ [v]) outcome) :
      Rounds l (rounds + 1) bytes values outcome

namespace Divides

variable {layout : Layout} {bytes rest w : Bytes} {pieces : List Bytes} {values : List Value}
  {v : Value}

theorem nil : layout.Divides [] [] [] := ⟨rfl, nofun, .nil⟩

theorem cons (some_bytes : w ≠ []) (read : layout.read w = .ok v)
    (others : layout.Divides rest pieces values) :
    layout.Divides (w ++ rest) (w :: pieces) (v :: values) where
  whole := by rw [List.flatten_cons, others.whole]
  some_bytes := List.forall_mem_cons.mpr ⟨some_bytes, others.some_bytes⟩
  read := .cons read others.read

/-- No bytes are no messages, and other bytes have a first one. -/
theorem cases (divides : layout.Divides bytes pieces values) :
    (bytes = [] ∧ pieces = [] ∧ values = []) ∨
      ∃ w rest v others further, bytes = w ++ rest ∧ w ≠ [] ∧ layout.read w = .ok v ∧
        pieces = w :: others ∧ values = v :: further ∧ layout.Divides rest others further := by
  obtain ⟨rfl, some_bytes, read⟩ := divides
  cases read with
  | nil => exact .inl ⟨rfl, rfl, rfl⟩
  | @cons w v others further first behind =>
    obtain ⟨w_some, others_some⟩ := List.forall_mem_cons.mp some_bytes
    exact .inr ⟨w, others.flatten, v, others, further, rfl, w_some, first, rfl, rfl,
      rfl, others_some, behind⟩

end Divides

section
variable {layout : Layout} (sound : layout.Sound)
include sound

/-- A round reads the message at the front of the bytes, and leaves what is behind it. -/
theorem readFrom_iff {bytes rest : Bytes} {v : Value} :
    layout.readFrom bytes = (.ok v, rest) ↔ ∃ w, bytes = w ++ rest ∧ layout.read w = .ok v := by
  constructor
  · intro round
    have holds : Supply.ofBytes.Holds bytes bytes := rfl
    generalize once : layout.decodeOnce ⟨bytes, none, []⟩ {} = answer
    obtain ⟨e | _, final⟩ := answer
    · obtain ⟨e', d', failed, -⟩ := Decoder.readValue_failed (holds_started sound holds once)
      rw [readFrom, failed] at round
      cases round
    · have spec := Decoder.readValue_spec (holds_started sound holds once)
      generalize message : (readMessage : Reading Bytes Value).run final.delivered = answer at spec
      split at spec
      · obtain ⟨d', given, left⟩ := spec
        have left_eq : d'.source = final.wire := left
        rw [readFrom, given] at round
        cases round
        -- over the bytes that it has taken, the pass does the same and leaves nothing
        obtain ⟨taken, takes⟩ := Pass.delimited_gaps layout.gaps _ () final once
        have bytes_eq : bytes = taken ++ final.wire := takes.wire
        have again := takes.whole ⟨taken, none, []⟩ [] (List.append_nil _).symm
        rw [left_eq]
        exact ⟨taken, bytes_eq, (read_iff sound).mpr ⟨_, again, rfl, message⟩⟩
      · obtain ⟨e', d', failed⟩ := spec
        rw [readFrom, failed] at round
        cases round
  · rintro ⟨w, rfl, read⟩
    have holds : Supply.ofBytes.Holds (w ++ rest) (w ++ rest) := rfl
    obtain ⟨left, round, left_eq⟩ := readFrom_whole sound read holds
    rw [round, show left = rest from left_eq]

/-- Only one message with its value stands at the front of bytes. -/
theorem read_front {w w' rest rest' : Bytes} {v v' : Value} (same : w ++ rest = w' ++ rest')
    (read : layout.read w = .ok v) (read' : layout.read w' = .ok v') :
    w = w' ∧ rest = rest' ∧ v = v' := by
  have round : layout.readFrom (w ++ rest) = (.ok v, rest) := (readFrom_iff sound).mpr ⟨w, rfl, read⟩
  have round' : layout.readFrom (w ++ rest) = (.ok v', rest') :=
    (readFrom_iff sound).mpr ⟨w', same, read'⟩
  rw [round] at round'
  cases round'
  exact ⟨List.append_cancel_right same, rfl, rfl⟩

theorem Divides.unique {bytes : Bytes} {pieces pieces' : List Bytes} {values values' : List Value}
    (divides : layout.Divides bytes pieces values)
    (divides' : layout.Divides bytes pieces' values') : pieces = pieces' ∧ values = values' := by
  induction pieces generalizing bytes pieces' values values' with
  | nil =>
    obtain ⟨rfl, -, rfl⟩ | ⟨w, rest, v, others, further, rfl, _, _, ⟨⟩, _⟩ := divides.cases
    obtain ⟨-, rfl, rfl⟩ | ⟨w, rest, v, others, further, empty, w_some, _⟩ := divides'.cases
    · exact ⟨rfl, rfl⟩
    · exact absurd (List.append_eq_nil_iff.mp empty.symm).1 w_some
  | cons w pieces ih =>
    obtain ⟨_, ⟨⟩, _⟩ | ⟨_, rest, v, _, further, rfl, w_some, read, ⟨⟩, rfl, behind⟩ :=
      divides.cases
    obtain ⟨empty, _⟩ | ⟨w', rest', v', others', further', same, _, read', rfl, rfl, behind'⟩ :=
      divides'.cases
    · exact absurd (List.append_eq_nil_iff.mp empty).1 w_some
    · obtain ⟨rfl, rfl, rfl⟩ := read_front sound same read read'
      obtain ⟨rfl, rfl⟩ := ih behind behind'
      exact ⟨rfl, rfl⟩

/-- A round that does not leave as many bytes as there were leaves fewer. -/
theorem round_fewer {bytes rest : Bytes} {v : Value} (round : layout.readFrom bytes = (.ok v, rest)) :
    rest.length ≤ bytes.length := by
  obtain ⟨w, rfl, _⟩ := (readFrom_iff sound).mp round
  rw [List.length_append]
  omega

/-- All rounds from some bytes, by induction on the number of bytes: each round has at least one byte
less to go over than the one before it. -/
theorem rounds_readAllFrom (bytes : Bytes) (values : List Value) :
    ∃ rounds ≤ bytes.length, layout.Rounds rounds bytes values
      ((layout.readAllFrom values.length bytes).map (values ++ ·)) := by
  induction count : bytes.length using Nat.strongRecOn generalizing bytes values with
  | ind count ih =>
    subst count
    rw [readAllFrom]
    by_cases none_left : bytes = []
    · subst none_left
      refine ⟨0, Nat.le_refl 0, ?_⟩
      simpa [Except.map] using Rounds.done (l := layout) values
    · rw [if_neg none_left]
      have some_bytes : 0 < bytes.length := List.length_pos_iff.mpr none_left
      generalize round : layout.readFrom bytes = answer
      obtain ⟨error | v, rest⟩ := answer
      · exact ⟨1, some_bytes, .faulty none_left round⟩
      · dsimp only
        have bound := round_fewer sound round
        by_cases fewer : rest.length < bytes.length
        · rw [if_pos fewer]
          obtain ⟨rounds, few, others⟩ := ih rest.length fewer rest (values ++ [v]) rfl
          refine ⟨rounds + 1, by omega, .further none_left round (by omega) ?_⟩
          rw [List.length_append, List.length_singleton] at others
          cases given : layout.readAllFrom (values.length + 1) rest with
          | error fault =>
            rw [given] at others
            exact others
          | ok further =>
            rw [given] at others
            simpa [Except.map, bind, Except.bind, pure, Except.pure] using others
        · rw [if_neg fewer]
          exact ⟨1, some_bytes, .idle none_left round (by omega)⟩

/-- The rounds give the values of the messages that the bytes divide into, behind those that were
there. -/
theorem Rounds.ok_iff {rounds : Nat} {bytes : Bytes} {before given : List Value}
    {outcome : Except Indivisible (List Value)} (went : layout.Rounds rounds bytes before outcome) :
    outcome = .ok given ↔
      ∃ pieces values, layout.Divides bytes pieces values ∧ given = before ++ values := by
  induction went with
  | done before =>
    constructor
    · rintro ⟨⟩
      exact ⟨[], [], .nil, (List.append_nil _).symm⟩
    · rintro ⟨pieces, values, divides, rfl⟩
      obtain ⟨-, -, rfl⟩ | ⟨w, rest, v, _, _, empty, w_some, _⟩ := divides.cases
      · rw [List.append_nil]
      · exact absurd (List.append_eq_nil_iff.mp empty.symm).1 w_some
  | faulty some_left round =>
    refine ⟨nofun, ?_⟩
    rintro ⟨pieces, values, divides, rfl⟩
    obtain ⟨empty, _⟩ | ⟨w, rest, v, _, _, same, _, read, _⟩ := divides.cases
    · exact absurd empty some_left
    · rw [(readFrom_iff sound).mpr ⟨w, same, read⟩] at round
      cases round
  | @idle bytes rest before v some_left round same_length =>
    refine ⟨nofun, ?_⟩
    rintro ⟨pieces, values, divides, rfl⟩
    obtain ⟨empty, _⟩ | ⟨w, rest', v', _, _, same, w_some, read, _⟩ := divides.cases
    · exact absurd empty some_left
    · rw [(readFrom_iff sound).mpr ⟨w, same, read⟩] at round
      cases round
      have some_bytes := List.length_pos_iff.mpr w_some
      rw [same, List.length_append] at same_length
      omega
  | @further rounds bytes rest before v outcome some_left round fewer others ih =>
    obtain ⟨w, rfl, read⟩ := (readFrom_iff sound).mp round
    have w_some : w ≠ [] := by
      rintro rfl
      exact fewer rfl
    rw [ih]
    constructor
    · rintro ⟨pieces, values, divides, rfl⟩
      exact ⟨w :: pieces, v :: values, .cons w_some read divides, by simp⟩
    · rintro ⟨pieces, values, divides, rfl⟩
      obtain ⟨empty, _⟩ | ⟨w', rest', v', others', values', same, _, read', rfl, rfl, behind⟩ :=
        divides.cases
      · exact absurd (List.append_eq_nil_iff.mp empty).1 w_some
      · obtain ⟨rfl, rfl, rfl⟩ := read_front sound same read read'
        exact ⟨others', values', behind, by simp⟩

end

/-- Reading message after message takes no more rounds than there are bytes. It gives values just
where the bytes divide into messages of these values, none of them empty, and they divide in one way
at most. Where they do, a line is printed for each value; elsewhere there is an error, and no line is
printed. -/
theorem readAll_divides {grammar : String} {layouts : List Layout}
    (compiled : compileSections grammar = .ok layouts) {layout : Layout} (member : layout ∈ layouts)
    (bytes : Bytes) :
    (∃ rounds ≤ bytes.length, layout.Rounds rounds bytes [] (layout.readAll bytes)) ∧
    (∀ values, layout.readAll bytes = .ok values ↔
      ∃ pieces, layout.Divides bytes pieces values) ∧
    (∀ pieces pieces' values values', layout.Divides bytes pieces values →
      layout.Divides bytes pieces' values' → pieces = pieces' ∧ values = values') ∧
    ∀ json,
      (∀ pieces values, layout.Divides bytes pieces values →
        Cli.decoded layout true json bytes =
          .ok (String.join (values.mapIdx (Cli.messageLine json)))) ∧
      ((¬∃ pieces values, layout.Divides bytes pieces values) →
        ∃ fault, layout.readAll bytes = .error fault ∧
          Cli.decoded layout true json bytes = .error (.indivisible fault)) := by
  have sound := compileSections_sound compiled member
  obtain ⟨rounds, few, went⟩ := rounds_readAllFrom sound bytes []
  have whole : (layout.readAllFrom 0 bytes).map ([] ++ ·) = layout.readAll bytes := by
    rw [readAll]
    cases layout.readAllFrom 0 bytes <;> rfl
  rw [List.length_nil, whole] at went
  have gives (values : List Value) :
      layout.readAll bytes = .ok values ↔ ∃ pieces, layout.Divides bytes pieces values := by
    rw [went.ok_iff sound]
    simp
  refine ⟨⟨rounds, few, went⟩, gives, ?_, fun json => ⟨?_, ?_⟩⟩
  · exact fun pieces pieces' values values' divides divides' => divides.unique sound divides'
  · intro pieces values divides
    rw [Cli.decoded, Cli.messages, if_pos rfl, (gives values).mpr ⟨pieces, divides⟩]
    rfl
  · intro undivided
    cases given : layout.readAll bytes with
    | ok values =>
      obtain ⟨pieces, divides⟩ := (gives values).mp given
      exact absurd ⟨pieces, values, divides⟩ undivided
    | error fault =>
      refine ⟨fault, rfl, ?_⟩
      rw [Cli.decoded, Cli.messages, if_pos rfl, given]
      rfl

/-- An integer, and behind it one that the tagged message does not have. -/
def guarded : Layout where
  gaps :=
    [⟨[256, 1, 32], .data ⟨.fixed 1, .int8, .identity, .exchanged, "int8 *"⟩⟩,
      ⟨[], .data ⟨.fixed 1, .int8, .identity, .skipped, "skip int8 *"⟩⟩]
  grammar := "int8 * skip int8 *"

theorem compileSections_guarded : compileSections "int8 * skip int8 *" = .ok [guarded] :=
  @compileSections_single _
    [⟨"", "int8", 0⟩, ⟨" ", "*", 5⟩, ⟨" ", "skip", 7⟩, ⟨" ", "int8", 12⟩, ⟨" ", "*", 17⟩]
    [.data [32] ⟨.fixed 1, .int8, .identity, .exchanged, "int8 *"⟩,
      .data [] ⟨.fixed 1, .int8, .identity, .skipped, "skip int8 *"⟩] rfl rfl

theorem read_guarded (b skipped : UInt8) :
    guarded.read [b, skipped] = .ok (.list [.int8 (Int8.ofInt (Bytes.toInt [b]))]) := by
  have sound := compileSections_sound compileSections_guarded (List.mem_singleton.mpr rfl)
  have once : guarded.decodeOnce ⟨[b, skipped], none, []⟩ {} =
      (.ok (), ⟨[0, 1, 0, 0, 1, 0, 0, 0, 32, 0, 0, 0, b], ⟨[], none, []⟩, {}⟩) :=
    Prod.ext (by rfl) (by rfl)
  have item : Tagged.Item (Tagged.Body 128) 0 [32, 0, 0, 0, b]
      (.int8 (Int8.ofInt (Bytes.toInt [b]))) := by
    have primitive : Tagged.Primitive .int8 [b] (.int8 (Int8.ofInt (Bytes.toInt [b]))) :=
      .fixed rfl rfl
    rw [Tagged.Item, if_pos rfl]
    exact ⟨Word.ofKind .int8, [b], rfl, .of_primitive primitive⟩
  have message : Tagged.Message [0, 1, 0, 0, 1, 0, 0, 0, 32, 0, 0, 0, b]
      (.list [.int8 (Int8.ofInt (Bytes.toInt [b]))]) :=
    ⟨Word.ofList none, [1, 0, 0, 0, 32, 0, 0, 0, b], rfl, rfl, 1, _, [32, 0, 0, 0, b], rfl, rfl,
      rfl, .cons item .nil⟩
  exact (read_iff sound).mpr ⟨_, once, rfl, Tagged.decode_message message⟩

/-- Two messages, the second with the sign bit set. -/
theorem readAll_guarded :
    compileSections "int8 * skip int8 *" = .ok [guarded] ∧
      guarded.readAll [7, 0, 0xfe, 1] = .ok [.list [.int8 7], .list [.int8 (-2)]] ∧
      ∀ pieces values, guarded.Divides [7, 0, 0xfe, 1] pieces values →
        pieces = [[7, 0], [0xfe, 1]] := by
  obtain ⟨-, gives, unique, -⟩ :=
    readAll_divides compileSections_guarded (List.mem_singleton.mpr rfl) [7, 0, 0xfe, 1]
  have first : guarded.read [7, 0] = .ok (.list [.int8 7]) := by
    rw [read_guarded, show Int8.ofInt (Bytes.toInt [7]) = 7 by decide]
  have second : guarded.read [0xfe, 1] = .ok (.list [.int8 (-2)]) := by
    rw [read_guarded, show Int8.ofInt (Bytes.toInt [0xfe]) = -2 by decide]
  have divides : guarded.Divides [7, 0, 0xfe, 1] [[7, 0], [0xfe, 1]]
      [.list [.int8 7], .list [.int8 (-2)]] :=
    Divides.cons (by decide) first (Divides.cons (by decide) second .nil)
  exact ⟨compileSections_guarded, (gives _).mpr ⟨_, divides⟩,
    fun _ _ other => (unique _ _ _ _ other divides).1⟩

end TagWire.Layout
