import TagWire.Proofs.Decoder.Checked
import TagWire.Proofs.Decoder.Histories

/-!
# Decoders that stay in range

What can be done with a decoder, with all ranges checked that it goes by.

- `Decoder.read?`, `Decoder.finish?`, `Decoder.readValue?`: requests, working off the rest, and
  reading a message by requests.
- `Decoder.performAll?_start`: nothing that is done with a decoder of a sound layout, in any order,
  goes out of range.
-/

namespace TagWire

namespace Decoder

variable {σ : Type}

/-- A decoder of a sound layout. -/
structure Fit (layout : Layout) (d : Decoder σ) : Prop where
  same : d.layout = layout
  agenda : ∀ t ∈ d.agenda, t.Fit

/-- A decoder to be read from, none once a request to it has gone out of range. -/
structure Ranged (σ : Type) where
  decoder? : Option (Decoder σ)

/-- The reading goes over decoders of a layout in range, as it does without a check. -/
def InRange (layout : Layout) {α : Type} (m : Reading (Ranged σ) α) (m' : Reading (Decoder σ) α) :
    Prop :=
  ∀ d : Decoder σ, d.Fit layout →
    m.run ⟨some d⟩ = ((m'.run d).1, ⟨some (m'.run d).2⟩) ∧ (m'.run d).2.Fit layout

namespace InRange

variable {layout : Layout} {α β : Type}

theorem done (a : α) : InRange layout (pure a : Reading (Ranged σ) α) (pure a) :=
  fun _ fit => ⟨rfl, fit⟩

theorem failed (e : Error) : InRange layout (throw e : Reading (Ranged σ) α) (throw e) :=
  fun _ fit => ⟨rfl, fit⟩

theorem bind {m : Reading (Ranged σ) α} {m' : Reading (Decoder σ) α} {f : α → Reading (Ranged σ) β}
    {f' : α → Reading (Decoder σ) β} (first : InRange layout m m')
    (rest : ∀ a, InRange layout (f a) (f' a)) : InRange layout (m >>= f) (m' >>= f') := by
  intro d fit
  obtain ⟨same, kept⟩ := first d fit
  generalize run : m'.run d = answer at same kept
  obtain ⟨e | a, d'⟩ := answer
  · rw [Reading.run_bind_error run, Reading.run_bind_error same]
    exact ⟨rfl, kept⟩
  · rw [Reading.run_bind_ok run, Reading.run_bind_ok same]
    exact rest a d' kept

end InRange

variable [ByteStream σ]

/-- A request for at most `n` bytes. What is sent is divided where the request ends. -/
def read? (d : Decoder σ) (n : Nat) : Option (Except Error Bytes × Decoder σ) :=
  match d.failed with
  | some e => some (.error e, d)
  | none =>
    if n = 0 then some (.ok [], d)
    else if d.staged ≠ [] then do
      let (bytes, staged) ← d.staged.splitAt? (min n d.staged.length)
      some (.ok bytes, { d with staged })
    else do
      match ← Task.advance? n d.agenda d.channel with
      | (.error e, agenda, channel) => some (.error e, { d with agenda, channel, failed := some e })
      | (.ok sent, agenda, channel) =>
        let (bytes, staged) ← sent.splitAt? (min n sent.length)
        some (.ok bytes, { d with agenda, channel, staged })

/-- Works off what is left of the layout. -/
def finish? (d : Decoder σ) : Option (Except Error Unit × Decoder σ) :=
  match d.failed with
  | some e => some (.error e, d)
  | none => do
    match ← (Task.runAll? d.agenda).run d.channel with
    | (.error e, channel) => some (.error e, { d with channel, staged := [], failed := some e })
    | (.ok bytes, channel) =>
      let left := d.staged.length + bytes.length
      let d := { d with channel, agenda := [], staged := [] }
      let error := .parse "twiddled stream" (toString left ++ " bytes left after the message")
      some (if left = 0 then .ok () else .error error, d)

instance : ByteStream (Ranged σ) where
  read ranged n :=
    match do (← ranged.decoder?).read? n with
    | some (.ok bytes, d) => (some (.ok bytes), ⟨some d⟩)
    | some (.error e, d) => (some (.error (.carried e)), ⟨some d⟩)
    | none => (some (.ok []), ⟨none⟩)
  patience _ := 0
  interrupted answered := by split at answered <;> cases answered

/-- Reads one message. -/
def readValue? (d : Decoder σ) : Option (Except Error Value × Decoder σ) := do
  -- A request out of range ends the stream, and what has been read by then is dropped below.
  let (outcome, ranged) := Tagged.readMessage.run (⟨some d⟩ : Ranged σ)
  let d ← ranged.decoder?
  match d.failed, outcome with
  | some e, _ => some (.error e, d)
  | none, .error e => some (.error e, d)
  | none, .ok v =>
    match ← d.finish? with
    | (.ok (), d) => some (.ok v, d)
    | (.error e, d) => some (.error e, d)

def perform? (d : Decoder σ) : Op → Option (Answer × Decoder σ)
  | .read n => do
    let (answer, d) ← d.read? n
    return (.bytes answer, d)
  | .readValue => do
    let (answer, d) ← d.readValue?
    return (.value answer, d)
  | .finish => do
    let (answer, d) ← d.finish?
    return (.ended answer, d)
  | .put name value => some (.done, d.put name value)
  | .reset => some (.done, d.reset)

def performAll? (d : Decoder σ) : List Op → Option (List Answer × Decoder σ)
  | [] => some ([], d)
  | op :: rest => do
    let (answer, d) ← d.perform? op
    let (answers, d) ← d.performAll? rest
    return (answer :: answers, d)

theorem fit_read (layout : Layout) : Lasts (Fit layout : Decoder σ → Prop) := by
  intro d fit n
  have left := requested d n
  generalize (d.read n).2 = d' at left
  cases left with
  | idle => exact fit
  | delivered => exact ⟨fit.same, fit.agenda⟩
  | stopped _ _ advanced => exact ⟨fit.same, Task.fit_advance fit.agenda advanced⟩
  | further _ _ advanced => exact ⟨fit.same, Task.fit_advance fit.agenda advanced⟩

theorem fit_finish {layout : Layout} {d : Decoder σ} (fit : d.Fit layout) :
    d.finish.2.Fit layout := by
  have left := finished d
  generalize d.finish.2 = d' at left
  cases left with
  | idle => exact fit
  | stopped => exact ⟨fit.same, fit.agenda⟩
  | done => exact ⟨fit.same, List.forall_mem_nil _⟩

theorem fit_readValue {layout : Layout} {d : Decoder σ} (fit : d.Fit layout) :
    d.readValue.2.Fit layout :=
  (readValue_keeps (fit_read layout) (fun _ => fit_finish) fit).1

theorem fit_perform {layout : Layout} (sound : layout.Sound) {d : Decoder σ} (fit : d.Fit layout)
    (op : Op) : (d.perform op).2.Fit layout := by
  cases op with
  | read n => exact fit_read layout d fit n
  | readValue => exact fit_readValue fit
  | finish => exact fit_finish fit
  | put name value => exact ⟨fit.same, fit.agenda⟩
  | reset =>
    rw [← fit.same] at sound
    exact ⟨fit.same, Task.fit_tasks sound⟩

section
variable (modest : ByteStream.Modest σ) {layout : Layout} {d : Decoder σ}
include modest

theorem sure_read (fit : d.Fit layout) (n : Nat) : d.read? n = some (d.read n) := by
  rw [read?, read]
  cases d.failed with
  | some e => rfl
  | none =>
    dsimp only
    split
    · rfl
    split
    · rw [Bytes.splitAt?_min]
      rfl
    rw [Task.sure_advance modest n fit.agenda]
    generalize Task.advance n d.agenda d.channel = answer
    obtain ⟨e | sent, agenda, channel⟩ := answer
    · rfl
    · change (sent.splitAt? (min n sent.length)).bind _ = _
      rw [Bytes.splitAt?_min]
      rfl

theorem sure_finish (fit : d.Fit layout) : d.finish? = some d.finish := by
  rw [finish?, finish]
  cases d.failed with
  | some e => rfl
  | none =>
    dsimp only
    rw [Task.sure_runAll modest fit.agenda d.channel]
    generalize (Task.runAll d.agenda).run d.channel = answer
    obtain ⟨e | bytes, channel⟩ := answer
    · rfl
    · dsimp only [Option.bind_eq_bind, Option.bind_some]
      split <;> rfl

theorem request_ranged (fit : d.Fit layout) (n : Nat) :
    Reading.request (⟨some d⟩ : Ranged σ) n =
      ((Reading.request d n).1, ⟨some (Reading.request d n).2⟩) := by
  have sure : (do (← some d).read? n) = some (d.read n) := sure_read modest fit n
  rw [request_eq]
  apply Reading.request_answered
  simp only [ByteStream.read, sure]
  generalize d.read n = answer
  obtain ⟨e | bytes, d'⟩ := answer <;> rfl

theorem gather_ranged (fit : d.Fit layout) (n : Nat) :
    Reading.gather n (⟨some d⟩ : Ranged σ) =
      ((Reading.gather n d).1, ⟨some (Reading.gather n d).2⟩) ∧
      (Reading.gather n d).2.Fit layout := by
  induction n using Nat.strongRecOn generalizing d with
  | ind n ih =>
    rw [Reading.gather, Reading.gather]
    split
    · exact ⟨rfl, fit⟩
    have kept := (reported_request (fit_read layout) fit n).1
    rw [request_ranged modest fit]
    generalize Reading.request d n = answer at kept
    obtain ⟨e | _ | ⟨b, bytes⟩, d'⟩ := answer
    · exact ⟨rfl, kept⟩
    · exact ⟨rfl, kept⟩
    · obtain ⟨same, kept'⟩ := ih (n - 1 - bytes.length) (by omega) kept
      dsimp only
      rw [same]
      generalize Reading.gather (n - 1 - bytes.length) d' = answer at kept'
      obtain ⟨e | more, d''⟩ := answer
      · exact ⟨rfl, kept'⟩
      · exact ⟨rfl, kept'⟩

theorem inRange_upTo (context : String) (n : Nat) :
    InRange layout (Reading.upTo context n : Reading (Ranged σ) Bytes) (Reading.upTo context n) := by
  intro d fit
  obtain ⟨same, kept⟩ := gather_ranged modest fit n
  generalize gathered : Reading.gather n d = answer at same kept
  obtain ⟨e | bytes, d'⟩ := answer
  · rw [Reading.run_upTo_error gathered context, Reading.run_upTo_error same context]
    exact ⟨rfl, kept⟩
  · rw [Reading.run_upTo_ok gathered context, Reading.run_upTo_ok same context]
    exact ⟨rfl, kept⟩

/-- A message is read by requests, and these are in range. -/
theorem inRange_readMessage :
    InRange layout (Tagged.readMessage : Reading (Ranged σ) Value) Tagged.readMessage :=
  Partwise.readMessage {
    done := .done
    failed := fun _ => .failed _
    bind := .bind
    demand := fun context n missing => (inRange_upTo modest context n).bind fun bytes => by
      split
      · exact .failed _
      · exact .done bytes }

theorem sure_readValue (fit : d.Fit layout) : d.readValue? = some d.readValue := by
  obtain ⟨same, kept⟩ := inRange_readMessage modest d fit
  rw [readValue?, readValue, same]
  generalize Tagged.readMessage.run d = answer at kept
  obtain ⟨outcome, d'⟩ := answer
  have ended := sure_finish modest kept
  dsimp only [Option.bind_eq_bind, Option.bind_some] at ended ⊢
  rw [ended]
  cases d'.failed with
  | some e => rfl
  | none =>
    cases outcome with
    | error e => rfl
    | ok v =>
      dsimp only [Option.bind_some]
      generalize d'.finish = answer
      obtain ⟨e | _, d''⟩ := answer <;> rfl

theorem sure_perform (fit : d.Fit layout) (op : Op) : d.perform? op = some (d.perform op) := by
  cases op with
  | read n =>
    rw [perform?, sure_read modest fit]
    rfl
  | readValue =>
    rw [perform?, sure_readValue modest fit]
    rfl
  | finish =>
    rw [perform?, sure_finish modest fit]
    rfl
  | put | reset => rfl

theorem sure_performAll (sound : layout.Sound) (fit : d.Fit layout) (ops : List Op) :
    d.performAll? ops = some (d.performAll ops) := by
  induction ops generalizing d with
  | nil => rfl
  | cons op rest ih =>
    rw [performAll?, sure_perform modest fit]
    dsimp only [Option.bind_eq_bind, Option.bind_some]
    rw [ih (fit_perform sound fit op)]
    rfl

/-- Nothing that is done with a decoder of a sound layout goes out of range, whatever its source
holds. -/
theorem performAll?_start (sound : layout.Sound) (source : σ) (history : List Op) :
    (start layout source).performAll? history = some ((start layout source).performAll history) :=
  sure_performAll modest sound ⟨rfl, Task.fit_tasks sound⟩ history

end

end Decoder

end TagWire
