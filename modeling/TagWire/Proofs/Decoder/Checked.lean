import TagWire.Proofs.Decoder.Steady
import TagWire.Proofs.Stream.Checked

/-!
# Decoding with ranges checked

The tasks of a decoder with all that they cut out and take off checked: elements in a buffer of eight
bytes, their lower and higher bytes, the bytes of a property, integers that are widened, and what is left
of data.

- `Task.Fit`: tasks whose sizes fit, such as those of a sound layout.
- `Task.sure_run`, `Task.sure_step`: they are taken without going out of range.
-/

namespace TagWire

namespace Task

open Checked

variable {σ : Type}

/-- The tagged form of one element. The higher bytes of a padded one are split off. -/
def tagged? (p : Payload) (wire : Bytes) : Checked (Channel σ) Bytes :=
  match p.conversion with
  | .pad _ signed => do
    let size := p.kind.size?.getD 0
    let (kept, dropped) ← within (wire.splitAt? size)
    if dropped.all (· = padByte signed kept) then return kept
    else throw (.parse p.origin ("external value does not fit in " ++ toString size ++ " bytes"))
  | _ => free (liftM (tagged p wire))

/-- Hidden data as a property. -/
def saved? (p : Payload) (bytes : Bytes) : Checked (Channel σ) Property :=
  if p.count = .fixed 1 ∧ p.kind.isInteger then
    return .int (Int64.ofInt (← within bytes.signExtend?))
  else return .bytes bytes

/-- The lowest of the eight bytes of a property. -/
def loaded? (name origin : String) (literal : Option Int64) (size : Nat) :
    Checked (Channel σ) Bytes := do
  let channel ← free get
  match literal <|> channel.properties.int? name with
  | some v => within ((Bytes.ofInt 8 v.toInt).slice? 0 (min size 8))
  | none => throw (.missingProperty name origin)

/-- The size of an element outside: it fits the buffer, and there is no less of it than inside. -/
theorem wireSize_fits {p : Payload} (sound : p.Sound) {size : Nat} (known : p.kind.size? = some size) :
    ∃ wire, p.wireSize? = some wire ∧ wire ≤ 8 ∧ ∀ w signed, p.conversion = .pad w signed →
      size ≤ wire := by
  have small := (Kind.size_pos known).2
  rw [Payload.wireSize?, known]
  cases conversion : p.conversion with
  | identity => exact ⟨size, rfl, small, fun _ _ padded => by cases padded⟩
  | narrow => exact ⟨4, rfl, by decide, fun _ _ padded => by cases padded⟩
  | pad wire signed =>
    obtain ⟨-, unit, same, less, most⟩ := sound.pad conversion
    obtain rfl := Option.some.inj (known.symm.trans same)
    exact ⟨wire, rfl, most, fun _ _ _ => Nat.le_of_lt less⟩

theorem wireSize_of_isInteger {p : Payload} (integer : p.kind.isInteger = true) :
    ∃ size, p.wireSize? = some size := by
  obtain ⟨size, known⟩ := Kind.size_of_isInteger integer
  rw [Payload.wireSize?, known]
  cases p.conversion <;> exact ⟨_, rfl⟩

theorem wireSize_le {p : Payload} (sound : p.Sound) : p.wireSize?.getD 0 ≤ 8 := by
  cases known : p.kind.size? with
  | none =>
    rw [Payload.wireSize?, known]
    exact Nat.zero_le 8
  | some size =>
    obtain ⟨wire, outer, fits, -⟩ := wireSize_fits sound known
    rwa [outer]

theorem sure_tagged {p : Payload} {wire : Bytes} {size : Nat} (known : p.kind.size? = some size)
    (divides : ∀ w signed, p.conversion = .pad w signed → size ≤ wire.length) (c : Channel σ) :
    Sure c (tagged? p wire) (liftM (tagged p wire)) := by
  unfold tagged? tagged
  cases conversion : p.conversion with
  | identity => exact .unchecked _
  | narrow => exact .unchecked _
  | pad w signed =>
    dsimp only
    rw [known, Option.getD_some]
    refine .inside (Bytes.splitAt?_le (divides w signed conversion)) ?_
    dsimp only
    split
    · exact .done _
    · exact .failed _

theorem sure_saved {p : Payload} {bytes : Bytes}
    (short : p.count = .fixed 1 → p.kind.isInteger = true → bytes.length ≤ 8) (c : Channel σ) :
    Sure c (saved? p bytes) (pure (saved p bytes)) := by
  unfold saved? saved
  split
  · rename_i single
    exact .inside (Bytes.signExtend?_eq (short single.1 single.2)) (.done _)
  · exact .done _

theorem sure_loaded (name origin : String) (literal : Option Int64) {size : Nat} (fits : size ≤ 8)
    (c : Channel σ) : Sure c (loaded? name origin literal size) (loaded name origin literal size) := by
  apply (Sure.unchecked get).bind
  intro channel c' _
  cases literal <|> channel.properties.int? name with
  | none => exact .failed _
  | some v =>
    have lowest : (Bytes.ofInt 8 v.toInt).slice? 0 (min size 8) = some (Bytes.ofInt size v.toInt) := by
      rw [Nat.min_eq_left fits, Bytes.slice?_front (by rwa [Bytes.length_ofInt]),
        Bytes.take_ofInt fits]
    dsimp only
    rw [lowest]
    exact .done _

variable [ByteStream σ]

def readLength? (origin : String) : Checked (Channel σ) Nat := do
  let w := Word.ofBytes (← exactly origin 4)
  match w.length? with
  | some n => return n
  | none =>
    throw (.parse ("length prefix of '" ++ origin ++ "'") ("negative length " ++ toString w.toInt))

/-- Reads one element into a part of a buffer of eight bytes. -/
def convertElement? (p : Payload) : Checked (Channel σ) Bytes := do
  let buffer ← within (Bytes.slice? (List.replicate 8 0) 0 (p.wireSize?.getD 0))
  let wire ← exactly p.origin buffer.length
  tagged? p wire

def hiddenBytes? (p : Payload) : Checked (Channel σ) Bytes := do
  let n ← match p.count with
    | .fixed n => pure n
    | .fromWire => readLength? p.origin
  match p.wireSize? with
  | some size => exactly p.origin (n * size)
  | none =>
    let elements ← times (do exactly p.origin (← readLength? p.origin)) n
    return elements.flatten

def readHidden? (p : Payload) : Checked (Channel σ) Unit := do
  let bytes ← hiddenBytes? p
  match p.use with
  | .saved name =>
    let property ← saved? p bytes
    free (modify fun c => { c with properties := c.properties.put name property })
  | _ => pure ()

/-- One element behind its length. -/
def text? (origin : String) : Checked (Channel σ) Bytes := do
  let n ← readLength? origin
  return lengthBytes n ++ (← exactly origin n)

def elements? (p : Payload) (n : Nat) : Checked (Channel σ) Bytes :=
  match p.kind.size?, p.conversion with
  | none, _ => List.flatten <$> times (text? p.origin) n
  | some size, .identity => exactly p.origin (n * size)
  | some _, _ => List.flatten <$> times (convertElement? p) n

/-- All that a task sends. -/
def run? : Task → Checked (Channel σ) Bytes
  | derive derivation => do
    free (deriveProperties derivation)
    return []
  | send bytes => return bytes
  | hide p => do
    readHidden? p
    return []
  | load name origin literal size => loaded? name origin literal size
  | counted p => do
    let n ← readLength? p.origin
    return lengthBytes n ++ (← elements? p n)
  | forward origin n => exactly origin n
  | convert p n => List.flatten <$> times (convertElement? p) n
  | texts origin n => List.flatten <$> times (text? origin) n
  | close => return []

def runAll? : List Task → Checked (Channel σ) Bytes
  | [] => return []
  | t :: rest => do
    let first ← t.run?
    let others ← runAll? rest
    return first ++ others

/-- Takes a task up to its first bytes. What goes through is taken off what is left. -/
def step? (want : Nat) : Task → Checked (Channel σ) Outcome
  | derive derivation => do
    free (deriveProperties derivation)
    return .silent
  | send bytes => return if bytes = [] then .silent else .sent bytes []
  | hide p => do
    readHidden? p
    return .silent
  | load name origin literal size => return .sent (← loaded? name origin literal size) []
  | counted p => do
    let n ← readLength? p.origin
    return .sent (lengthBytes n) [p.elements n]
  | forward origin n =>
    if n = 0 then return .silent
    else do
      let bytes ← free (Reading.once origin (min want n))
      if bytes = [] then throw (.exhausted origin n)
      return .sent bytes [forward origin (← within (minus? n bytes.length))]
  | convert _ 0 => return .silent
  | convert p (n + 1) => return .sent (← convertElement? p) [convert p n]
  | texts _ 0 => return .silent
  | texts origin (n + 1) => do
    let length ← readLength? origin
    return .sent (lengthBytes length) [forward origin length, texts origin n]
  | close => return .silent

/-- Takes tasks until one sends bytes. -/
def advance? (want : Nat) :
    List Task → Channel σ → Option (Except Error Bytes × List Task × Channel σ)
  | [], channel => some (.ok [], [], channel)
  | t :: rest, channel =>
    match (t.step? want).run channel with
    | none => none
    | some (.error e, channel) => some (.error e, t :: rest, channel)
    | some (.ok .silent, channel) => advance? want rest channel
    | some (.ok (.sent bytes tasks), channel) => some (.ok bytes, tasks ++ rest, channel)

/-- The number of bytes of a property that a task sends or keeps. -/
def width : Task → Nat
  | load _ _ _ size => size
  | hide p => p.wireSize?.getD 0
  | _ => 0

/-- A task of a sound layout, whose sizes fit. -/
structure Fit (t : Task) : Prop where
  sound : t.Sound
  width : t.width ≤ 8

section
variable (modest : ByteStream.Modest σ)
include modest

theorem modest_channel : ByteStream.Modest (Channel σ) := by
  intro c c' n bytes answered
  obtain ⟨same, -⟩ := Prod.mk.inj answered
  exact modest c.source _ n bytes (Prod.ext same rfl)

theorem sure_length (origin : String) (c : Channel σ) :
    Sure c (readLength? origin) (readLength origin) := by
  apply (sure_exactly (modest_channel modest) origin 4 c).bind
  intro bytes c' _
  dsimp only
  cases (Word.ofBytes bytes).length? with
  | some n => exact .done n
  | none => exact .failed _

theorem sure_element {p : Payload} (sound : p.Sound) (known : p.kind.size?.isSome) (c : Channel σ) :
    Sure c (convertElement? p) (convertElement p) := by
  obtain ⟨size, known⟩ := Option.isSome_iff_exists.mp known
  obtain ⟨outer, outer_known, fits, divides⟩ := wireSize_fits sound known
  rw [convertElement?, convertElement, outer_known, Option.getD_some]
  refine .inside (Bytes.slice?_front fits) ?_
  rw [List.length_take_of_le fits]
  apply (sure_exactly (modest_channel modest) p.origin outer c).bind
  intro wire c' read
  have length := length_exactly (modest_channel modest) read
  exact sure_tagged known (fun w signed padded => length ▸ divides w signed padded) c'

theorem sure_bytes (p : Payload) (c : Channel σ) : Sure c (hiddenBytes? p) (hiddenBytes p) := by
  have elements (n : Nat) (c : Channel σ) :
      Sure c
        (match p.wireSize? with
        | some size => exactly p.origin (n * size)
        | none => do return (← times (do exactly p.origin (← readLength? p.origin)) n).flatten)
        (match p.wireSize? with
        | some size => Reading.exactly p.origin (n * size)
        | none => do
          return (← Reading.times (do Reading.exactly p.origin (← readLength p.origin)) n).flatten) := by
    cases p.wireSize? with
    | some size => exact sure_exactly (modest_channel modest) p.origin (n * size) c
    | none =>
      refine (sure_times (fun s => ?_) n c).bind fun elements _ _ => .done elements.flatten
      exact (sure_length modest p.origin s).bind fun length s' _ =>
        sure_exactly (modest_channel modest) p.origin length s'
  unfold hiddenBytes? hiddenBytes
  cases p.count with
  | fixed n => exact elements n c
  | fromWire => exact (sure_length modest p.origin c).bind fun n c' _ => elements n c'

/-- A single element has its size. -/
theorem length_hidden {p : Payload} (single : p.count = .fixed 1) {size : Nat}
    (known : p.wireSize? = some size) {c c' : Channel σ} {bytes : Bytes}
    (read : (hiddenBytes p).run c = (.ok bytes, c')) : bytes.length = size := by
  rw [hiddenBytes, single, known] at read
  have length := length_exactly (modest_channel modest) read
  rwa [Nat.one_mul] at length

theorem sure_hidden {p : Payload} (fits : p.wireSize?.getD 0 ≤ 8) (c : Channel σ) :
    Sure c (readHidden? p) (readHidden p) := by
  apply (sure_bytes modest p c).bind
  intro bytes c' read
  cases p.use with
  | saved name =>
    have property : Sure c' (saved? p bytes) (pure (saved p bytes)) := by
      refine sure_saved (fun single integer => ?_) c'
      -- Only the bytes of a single integer are widened, and these fit the buffer.
      obtain ⟨size, known⟩ := wireSize_of_isInteger integer
      rw [known] at fits
      rw [length_hidden modest single known read]
      exact fits
    exact property.bind fun _ _ _ => .unchecked _
  | _ => exact .done ()

theorem sure_text (origin : String) (c : Channel σ) : Sure c (text? origin) (text origin) :=
  (sure_length modest origin c).bind fun n c' _ =>
    (sure_exactly (modest_channel modest) origin n c').bind fun bytes _ _ =>
      .done (lengthBytes n ++ bytes)

theorem sure_elements {p : Payload} (sound : p.Sound) (n : Nat) (c : Channel σ) :
    Sure c (elements? p n) (elements p n) := by
  unfold elements? elements
  cases known : p.kind.size? with
  | none => exact (sure_times (sure_text modest p.origin) n c).map List.flatten
  | some size =>
    have each := sure_element modest sound (Option.isSome_iff_exists.mpr ⟨size, known⟩)
    cases p.conversion with
    | identity => exact sure_exactly (modest_channel modest) p.origin (n * size) c
    | narrow | pad => exact (sure_times each n c).map List.flatten

/-- A task of a sound layout is taken as a whole without going out of range. -/
theorem sure_run {t : Task} (fit : t.Fit) (c : Channel σ) : Sure c t.run? t.run := by
  cases t with
  | derive derivation => exact (Sure.unchecked _).bind fun _ _ _ => .done []
  | send bytes => exact .done bytes
  | hide p => exact (sure_hidden modest fit.width c).bind fun _ _ _ => .done []
  | load name origin literal size => exact sure_loaded name origin literal fit.width c
  | counted p =>
    exact (sure_length modest p.origin c).bind fun n c' _ =>
      (sure_elements modest fit.sound n c').bind fun bytes _ _ => .done (lengthBytes n ++ bytes)
  | forward origin n => exact sure_exactly (modest_channel modest) origin n c
  | convert p n =>
    obtain ⟨sound, -, known⟩ := fit.sound
    exact (sure_times (sure_element modest sound known) n c).map List.flatten
  | texts origin n => exact (sure_times (sure_text modest origin) n c).map List.flatten
  | close => exact .done []

theorem sure_runAll {agenda : List Task} (fit : ∀ t ∈ agenda, t.Fit) (c : Channel σ) :
    Sure c (runAll? agenda) (runAll agenda) := by
  induction agenda generalizing c with
  | nil => exact .done []
  | cons t rest ih =>
    obtain ⟨first, others⟩ := List.forall_mem_cons.mp fit
    exact (sure_run modest first c).bind fun sent c' _ =>
      (ih others c').bind fun bytes _ _ => .done (sent ++ bytes)

/-- A task of a sound layout is taken up to its first bytes without going out of range. -/
theorem sure_step {t : Task} (fit : t.Fit) (want : Nat) (c : Channel σ) :
    Sure c (t.step? want) (t.step want) := by
  cases t with
  | derive derivation => exact (Sure.unchecked _).bind fun _ _ _ => .done _
  | send bytes => exact .done _
  | hide p => exact (sure_hidden modest fit.width c).bind fun _ _ _ => .done _
  | load name origin literal size =>
    exact (sure_loaded name origin literal fit.width c).bind fun _ _ _ => .done _
  | counted p => exact (sure_length modest p.origin c).bind fun _ _ _ => .done _
  | forward origin n =>
    change Sure c (if n = 0 then pure Outcome.silent else _) (if n = 0 then pure Outcome.silent else _)
    split
    · exact .done _
    refine (Sure.unchecked _).bind fun bytes c' asked => ?_
    -- The stream gives no more than is wanted, and no more is wanted than is left.
    have some_left : bytes.length ≤ n :=
      Nat.le_trans (length_once (modest_channel modest) asked) (Nat.min_le_right want n)
    split
    · exact .failed _
    · exact .inside (minus?_le some_left) (.done _)
  | convert p n =>
    cases n with
    | zero => exact .done _
    | succ n =>
      obtain ⟨sound, -, known⟩ := fit.sound
      exact (sure_element modest sound known c).bind fun _ _ _ => .done _
  | texts origin n =>
    cases n with
    | zero => exact .done _
    | succ n => exact (sure_length modest origin c).bind fun _ _ _ => .done _
  | close => exact .done _

/-- Tasks of a sound layout are taken without going out of range. -/
theorem sure_advance (want : Nat) {agenda : List Task} (fit : ∀ t ∈ agenda, t.Fit) (c : Channel σ) :
    advance? want agenda c = some (advance want agenda c) := by
  induction agenda generalizing c with
  | nil => rfl
  | cons t rest ih =>
    obtain ⟨first, others⟩ := List.forall_mem_cons.mp fit
    rw [advance?, advance, sure_step modest first want c]
    generalize (t.step want).run c = answer
    obtain ⟨e | _ | ⟨bytes, tasks⟩, c'⟩ := answer
    · rfl
    · exact ih others c'
    · rfl

end

theorem fit_elements {p : Payload} (sound : p.Sound) (n : Nat) : (p.elements n).Fit := by
  refine ⟨sound_elements sound n, ?_⟩
  unfold Payload.elements
  split <;> exact Nat.zero_le 8

theorem Left.fit {t t' : Task} (left : t.Left t') (fit : t.Fit) : t'.Fit := by
  cases left with
  | elements p n => exact fit_elements fit.sound n
  | convert p n => exact ⟨fit.sound, Nat.zero_le 8⟩
  | forward | text | texts => exact ⟨trivial, Nat.zero_le 8⟩

/-- What is left of tasks has sizes that fit. -/
theorem fit_advance {want : Nat} {agenda left : List Task} (fit : ∀ t ∈ agenda, t.Fit)
    {c c' : Channel σ} {answer : Except Error Bytes}
    (advanced : advance want agenda c = (answer, left, c')) : ∀ t ∈ left, t.Fit := by
  induction agenda generalizing c with
  | nil =>
    cases advanced
    exact fit
  | cons t rest ih =>
    obtain ⟨first, others⟩ := List.forall_mem_cons.mp fit
    rw [advance] at advanced
    have leaves := leaves_step want t c
    generalize (t.step want).run c = outcome at advanced leaves
    obtain ⟨e | _ | ⟨bytes, tasks⟩, c''⟩ := outcome
    · cases advanced
      exact fit
    · exact ih others advanced
    · cases advanced
      exact List.forall_mem_append.mpr
        ⟨fun t' member => (leaves bytes tasks rfl t' member).fit first, others⟩

theorem fit_task {p : Payload} (sound : p.Sound) : p.task.Fit := by
  refine ⟨sound_task sound, ?_⟩
  unfold Payload.task
  cases p.use with
  | skipped | saved => exact wireSize_le sound
  | loaded =>
    change p.kind.size?.getD 0 ≤ 8
    cases known : p.kind.size? with
    | none => exact Nat.zero_le 8
    | some size => exact (Kind.size_pos known).2
  | exchanged =>
    cases p.count with
    | fixed n => exact (fit_elements sound n).width
    | fromWire => exact Nat.zero_le 8

theorem fit_tasks {l : Layout} (sound : l.Sound) : ∀ t ∈ l.tasks, t.Fit :=
  forall_tasks (fun _ => ⟨trivial, Nat.zero_le 8⟩) (fun _ => ⟨trivial, Nat.zero_le 8⟩)
    ⟨trivial, Nat.zero_le 8⟩ fun g member p data => fit_task (sound g member p data)

end Task

end TagWire
