import Mathlib.Data.List.Forall2
import TagWire.Proofs.Tagged.Encoding
import TagWire.Proofs.Tagged.Truncation

/-!
# Values there and back

Values that fit the format are written one after the other and read again, from a stream that gives
their bytes in any portions.

- `Value.fits`, `Value.depth`: what the format asks of a value.
- `Tagged.encode_fitting`: a list that fits is encoded, as a message.
- `Tagged.write_all`: how messages are added up, and cut into blocks.
- `Tagged.read_all`: how they are read from a stream.
-/

namespace TagWire

namespace Value

mutual

/-- Whether the counts and lengths in a value can be told by signed words. -/
def fits : Value → Bool
  | list items => decide (items.length < 0x80000000) && allFit items
  | string bytes => decide (bytes.length < 0x80000000)
  | blob bytes => decide (bytes.length < 0x80000000)
  | _ => true

def allFit : List Value → Bool
  | [] => true
  | v :: rest => v.fits && allFit rest

end

mutual

/-- The number of lists that are inside each other. -/
def depth : Value → Nat
  | list items => depthOf items + 1
  | _ => 0

def depthOf : List Value → Nat
  | [] => 0
  | v :: rest => max v.depth (depthOf rest)

end

theorem depth_le_depthOf {v : Value} {items : List Value} (member : v ∈ items) :
    v.depth ≤ depthOf items := by
  induction items with
  | nil => exact absurd member List.not_mem_nil
  | cons first rest ih =>
    rw [depthOf]
    rcases List.mem_cons.mp member with rfl | behind
    · exact Nat.le_max_left ..
    · exact Nat.le_trans (ih behind) (Nat.le_max_right ..)

end Value

namespace Tagged

open Value (allFit)

theorem encodeLength_fitting {n : Nat} (bound : n < 0x80000000) :
    encodeLength n = .ok (Bytes.ofNat 4 n) := if_pos bound

mutual

/-- A value that fits is encoded. -/
theorem encodeBody_fitting : ∀ {v : Value}, v.fits = true → ∃ bytes, encodeBody v = .ok bytes
  | .list items, fit => by
    rw [Value.fits, Bool.and_eq_true, decide_eq_true_eq] at fit
    obtain ⟨bytes, encoded⟩ := encodeItems_fitting (Value.shared items).isSome fit.2
    rw [encodeBody, encodeLength_fitting fit.1, encoded]
    exact ⟨_, rfl⟩
  | .string text, fit => by
    rw [Value.fits, decide_eq_true_eq] at fit
    rw [encodeBody, encodeLength_fitting fit]
    exact ⟨_, rfl⟩
  | .blob bytes, fit => by
    rw [Value.fits, decide_eq_true_eq] at fit
    rw [encodeBody, encodeLength_fitting fit]
    exact ⟨_, rfl⟩
  | .int8 _, _ | .int16 _, _ | .int32 _, _ | .int64 _, _ | .vocab _, _ | .float32 _, _
  | .float64 _, _ => ⟨_, rfl⟩

theorem encodeItems_fitting (isShared : Bool) :
    ∀ {items : List Value}, allFit items = true → ∃ bytes, encodeItems isShared items = .ok bytes
  | [], _ => ⟨[], rfl⟩
  | v :: rest, fit => by
    rw [allFit, Bool.and_eq_true] at fit
    obtain ⟨body, first⟩ := encodeBody_fitting fit.1
    obtain ⟨others, further⟩ := encodeItems_fitting isShared fit.2
    rw [encodeItems, first, further]
    exact ⟨_, rfl⟩

end

/-- Items that bring their tag words are a series of what these announce. -/
theorem series_of_tagged {depth : Nat} {items : List Value}
    (announced : ∀ v ∈ items, ∀ body, encodeBody v = .ok body →
      Announced (Body depth) v.word body v)
    {bytes : Bytes} (encoded : encodeItems false items = .ok bytes) :
    Series (Item (Body depth) 0) bytes items := by
  induction items generalizing bytes with
  | nil =>
    cases encoded
    exact .nil
  | cons v rest ih =>
    obtain ⟨body, others, first, further, rfl⟩ := encodeItems_cons encoded
    refine .cons ?_ (ih (fun v member => announced v (List.mem_cons_of_mem _ member)) further)
    rw [Item, if_pos rfl]
    exact ⟨v.word, body, rfl, announced v List.mem_cons_self body first⟩

/-- What is encoded is what its tag word announces, by induction on how deep lists may nest. -/
theorem announced_of_encodeBody {depth : Nat} {v : Value} (shallow : v.depth ≤ depth) {body : Bytes}
    (encoded : encodeBody v = .ok body) : Announced (Body depth) v.word body v := by
  induction depth generalizing v body with
  | zero =>
    cases known : v.kind? with
    | some kind =>
      rw [Value.word_of_kind known]
      exact .of_primitive (primitive_of_encodeBody known encoded)
    | none =>
      cases v with
      | list items => exact absurd shallow (Nat.not_succ_le_zero _)
      | _ => cases known
  | succ depth ih =>
    cases known : v.kind? with
    | some kind =>
      rw [Value.word_of_kind known]
      exact .of_primitive (primitive_of_encodeBody known encoded)
    | none =>
      cases v with
      | list items =>
        obtain ⟨w, rest, length, inner, rfl⟩ := encodeBody_list encoded
        rw [Value.word]
        refine .of_series length ?_
        cases shared : Value.shared items with
        | some kind =>
          rw [shared] at inner
          exact (series_of_encodeItems (Value.kinds_of_shared shared) inner).items
        | none =>
          rw [shared] at inner
          apply series_of_tagged _ inner
          intro v member body encoded
          exact ih (Nat.le_trans (Value.depth_le_depthOf member) (Nat.le_of_succ_le_succ shallow))
            encoded
      | _ => cases known

/-- A list is encoded as a whole message. -/
theorem message_of_encode {v : Value} (shallow : v.depth ≤ maxDepth) {bytes : Bytes}
    (encoded : encode v = .ok bytes) : Message bytes v := by
  obtain ⟨items, body, rfl, inner, rfl⟩ := encode_ok encoded
  exact (announced_of_encodeBody shallow inner).message

/-- A list that fits is encoded. -/
theorem encode_fitting {v : Value} (list : v.isList = true) (fit : v.fits = true) :
    ∃ bytes, encode v = .ok bytes := by
  obtain ⟨body, encoded⟩ := encodeBody_fitting fit
  cases v with
  | list items =>
    rw [encode, encoded]
    exact ⟨_, rfl⟩
  | _ => cases list

/-- The bytes of values one by one. -/
abbrev Encodings := List.Forall₂ fun v bytes => encode v = .ok bytes

theorem encodings_fitting {vs : List Value} (lists : ∀ v ∈ vs, v.isList = true)
    (fit : ∀ v ∈ vs, v.fits = true) : ∃ encodings, Encodings vs encodings := by
  induction vs with
  | nil => exact ⟨[], .nil⟩
  | cons v rest ih =>
    obtain ⟨bytes, encoded⟩ :=
      encode_fitting (lists v List.mem_cons_self) (fit v List.mem_cons_self)
    obtain ⟨encodings, others⟩ := ih (fun v member => lists v (List.mem_cons_of_mem _ member))
      fun v member => fit v (List.mem_cons_of_mem _ member)
    exact ⟨bytes :: encodings, .cons encoded others⟩

/-- Messages are added one after the other; nothing else of an outbox changes. -/
theorem write_all {vs : List Value} {encodings : List Bytes} (each : Encodings vs encodings)
    (outbox : Outbox) :
    vs.foldlM Outbox.write outbox =
      .ok { outbox with payload := outbox.payload ++ encodings.flatten } := by
  induction each generalizing outbox with
  | nil => simp [pure, Except.pure]
  | @cons v bytes vs encodings encoded _ ih =>
    have written : outbox.write v = .ok { outbox with payload := outbox.payload ++ bytes } := by
      rw [Outbox.write, encoded]
      rfl
    rw [List.foldlM_cons, written]
    change vs.foldlM Outbox.write { outbox with payload := outbox.payload ++ bytes } = _
    rw [ih]
    simp

theorem yields_all {vs : List Value} {encodings : List Bytes} (each : Encodings vs encodings)
    (shallow : ∀ v ∈ vs, v.depth ≤ maxDepth) :
    Yields (Reading.times readMessage vs.length) encodings.flatten vs := by
  induction each with
  | nil => exact .done []
  | cons encoded _ ih =>
    have first := yields_message (message_of_encode (shallow _ List.mem_cons_self) encoded)
    have others := ih fun v member => shallow v (List.mem_cons_of_mem _ member)
    exact first.bind (others.bind_silent (.done _))

/-- Messages are read in order from any stream that holds them, and what is behind them is left. -/
theorem read_all {vs : List Value} {encodings : List Bytes} (each : Encodings vs encodings)
    (shallow : ∀ v ∈ vs, v.depth ≤ maxDepth) {source : Source} {rest : Bytes}
    (answers : source.Answers)
    (contents : source.contents = ⟨encodings.flatten ++ rest, none, []⟩) :
    ∃ source', (Reading.times readMessage vs.length).run source = (.ok vs, source') ∧
      source'.contents = ⟨rest, none, []⟩ := by
  have uniform : Uniform (Supply.ofSource none []) (Reading.times readMessage vs.length)
      (Reading.times readMessage vs.length) :=
    (Uniform.partwise _).times uniform_readMessage vs.length
  have ends := uniform source _ ⟨answers, contents⟩
  rw [yields_all each shallow rest] at ends
  generalize (Reading.times readMessage vs.length).run source = answer at ends
  cases ends with
  | ok holds => exact ⟨_, rfl, holds.2⟩

/-- Lists that fit are written by one outbox, whatever the size of its blocks and whatever its
headers; the payload is their bytes one after the other. Read from any stream they are the same
values, and what is behind them is left. A message that ends early is exhausted. -/
theorem written_read {vs : List Value} (lists : ∀ v ∈ vs, v.isList = true)
    (fit : ∀ v ∈ vs, v.fits = true) (shallow : ∀ v ∈ vs, v.depth ≤ maxDepth) (headers : List Bytes)
    (blockSize : Nat) :
    ∃ outbox encodings, vs.foldlM Outbox.write { headers, blockSize } = .ok outbox ∧
      Encodings vs encodings ∧ outbox.finish.headers = headers ∧
      outbox.finish.payload = encodings.flatten ∧
      (∀ (source : Source) (rest : Bytes), source.Answers →
        source.contents = ⟨outbox.finish.payload ++ rest, none, []⟩ →
        ∃ source', (Reading.times readMessage vs.length).run source = (.ok vs, source') ∧
          source'.contents = ⟨rest, none, []⟩) ∧
      ∀ v ∈ vs, ∀ bytes, encode v = .ok bytes → ∀ p, p <+: bytes → p ≠ bytes →
        ∃ context missing, decode p = .error (.exhausted context missing) := by
  obtain ⟨encodings, each⟩ := encodings_fitting lists fit
  have payload (outbox : Outbox) : outbox.finish.payload = outbox.payload :=
    flatten_cut outbox.blockSize outbox.payload
  refine ⟨_, encodings, write_all each _, each, rfl, payload _, ?_, ?_⟩
  · intro source rest answers contents
    rw [payload] at contents
    exact read_all each shallow answers contents
  · intro v member bytes encoded p within strict
    exact decode_short (message_of_encode (shallow v member) encoded) within strict

/-- A list with an empty list, a text and a signalling NaN in it, and a list of integers. -/
def mixedMessages : List Value :=
  [.list [.list [], .string [104, 105], .float32 0x7f800001], .list [.int8 1, .int8 (-1)]]

def mixedBytes : Bytes :=
  [0, 1, 0, 0, 3, 0, 0, 0, 0, 1, 0, 0, 0, 0, 0, 0, 4, 0, 0, 0, 2, 0, 0, 0, 104, 105,
    128, 0, 0, 0, 1, 0, 0x80, 0x7f, 32, 1, 0, 0, 2, 0, 0, 0, 1, 0xff]

/-- Cut into blocks of three bytes behind a header, and read byte by byte across an interruption. -/
theorem written_read_mixed :
    (∀ v ∈ mixedMessages, v.isList = true) ∧ (∀ v ∈ mixedMessages, v.fits = true) ∧
      (∀ v ∈ mixedMessages, v.depth ≤ maxDepth) ∧
      ∃ outbox source', mixedMessages.foldlM Outbox.write { headers := [[7]], blockSize := 3 } =
          .ok outbox ∧
        outbox.finish.payload = mixedBytes ∧
        (Reading.times readMessage 2).run
            { arrivals := [.bytes (mixedBytes.take 5), .interruption,
                .bytes (mixedBytes.drop 5 ++ [9])], chunk := some 1 : Source } =
          (.ok mixedMessages, source') ∧
        source'.contents = ⟨[9], none, []⟩ ∧
        ∃ context missing, decode (mixedBytes.take 20) = .error (.exhausted context missing) := by
  have lists : ∀ v ∈ mixedMessages, v.isList = true := by decide
  have fit : ∀ v ∈ mixedMessages, v.fits = true := by decide
  have shallow : ∀ v ∈ mixedMessages, v.depth ≤ maxDepth := by decide
  obtain ⟨outbox, encodings, written, each, -, payload, read, short⟩ :=
    written_read lists fit shallow [[7]] 3
  have first : encode (.list [.list [], .string [104, 105], .float32 0x7f800001]) =
      .ok (mixedBytes.take 34) := by rfl
  have second : encode (.list [.int8 1, .int8 (-1)]) = .ok (mixedBytes.drop 34) := by rfl
  have all : encodings = [mixedBytes.take 34, mixedBytes.drop 34] := by
    cases each with
    | cons encoded others =>
      cases others with
      | cons encoded' others =>
        cases others
        rw [first] at encoded
        rw [second] at encoded'
        cases encoded
        cases encoded'
        rfl
  have payload : outbox.finish.payload = mixedBytes := by
    rw [payload, all]
    decide
  obtain ⟨source', ended, contents⟩ := read
    { arrivals := [.bytes (mixedBytes.take 5), .interruption, .bytes (mixedBytes.drop 5 ++ [9])],
      chunk := some 1 } [9] (by simp [Source.Answers]) (by rw [payload]; decide)
  exact ⟨lists, fit, shallow, outbox, source', written, payload, ended, contents,
    short _ List.mem_cons_self _ first (mixedBytes.take 20) (by decide) (by decide)⟩

end Tagged

end TagWire
