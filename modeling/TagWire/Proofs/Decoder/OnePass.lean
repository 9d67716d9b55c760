import TagWire.Decoder.Task
import TagWire.Proofs.Stream.Supply

/-!
# Decoding in one pass

What a layout makes of all that a source holds, gap by gap: the tag words of a gap, then its data
taken from the front of the bytes. Nothing is staged, and no request is made of a stream.

- `Layout.decodeOnce`: the pass over a layout, with the bytes delivered up to its end or its
  failure.
- `Ledger.Extends`: what has been delivered stays delivered, and bytes are taken from the front.
- `Pass.Onward`: relations that hold on through a pass, if they do where properties are written.
-/

namespace TagWire

/-- The error where `missing` bytes are lacking: the failure behind the bytes, or exhaustion. -/
def Contents.shortage (c : Contents) (origin : String) (missing : Nat) : Error :=
  match c.failure with
  | some e => e.toError origin
  | none => .exhausted origin missing

theorem Contents.shortage_eq_getD (c : Contents) (origin : String) (missing : Nat) :
    c.shortage origin missing =
      (c.failure.map (·.toError origin)).getD (.exhausted origin missing) := by
  unfold shortage
  cases c.failure <;> rfl

/-- The number of bytes not yet read. -/
def Contents.left (c : Contents) : Nat := c.wire.length + c.after.length

/-- What a pass has come to. -/
structure Ledger where
  delivered : Bytes := []
  contents : Contents
  properties : Properties := {}
  deriving DecidableEq, Repr

namespace Ledger

def wire (l : Ledger) : Bytes := l.contents.wire

/-- The ledger with other bytes left of its source. -/
def withWire (l : Ledger) (wire : Bytes) : Ledger := { l with contents := { l.contents with wire } }

/-- What has been delivered stays delivered, and bytes are taken from the front. -/
structure Extends (l l' : Ledger) : Prop where
  delivered : l.delivered <+: l'.delivered
  wire : l'.wire <:+ l.wire
  failure : l'.contents.failure = l.contents.failure
  after : l'.contents.after = l.contents.after

theorem Extends.refl (l : Ledger) :
    l.Extends l := ⟨List.prefix_refl _, List.suffix_refl _, rfl, rfl⟩

theorem Extends.trans {l l' l'' : Ledger} (first : l.Extends l') (further : l'.Extends l'') :
    l.Extends l'' where
  delivered := first.delivered.trans further.delivered
  wire := further.wire.trans first.wire
  failure := further.failure.trans first.failure
  after := further.after.trans first.after

end Ledger

/-- A part of a pass. An error ends the pass, and what was delivered before stays. -/
abbrev Pass := ExceptT Error (StateM Ledger)

namespace Pass

def deliver (bytes : Bytes) : Pass Unit := fun l =>
  (.ok (), { l with delivered := l.delivered ++ bytes })

/-- The next `n` bytes. Where these are lacking, all the rest is used up. -/
def exactly (origin : String) (n : Nat) : Pass Bytes := fun l =>
  if n ≤ l.wire.length then (.ok (l.wire.take n), l.withWire (l.wire.drop n))
  else (.error (l.contents.shortage origin (n - l.wire.length)), l.withWire [])

/-- Delivers the next `n` bytes, and what there is of them where some are lacking. -/
def forward (origin : String) (n : Nat) : Pass Unit := do
  deliver ((← get).wire.take n)
  let _ ← exactly origin n

/-- The number in front of data. -/
def length (origin : String) : Pass Nat := do
  let w := Word.ofBytes (← exactly origin 4)
  match w.length? with
  | some n => return n
  | none =>
    throw (.parse ("length prefix of '" ++ origin ++ "'") ("negative length " ++ toString w.toInt))

/-- Repeats a part of a pass. -/
def times {α : Type} (part : Pass α) : Nat → Pass (List α)
  | 0 => return []
  | n + 1 => do
    let first ← part
    let rest ← times part n
    return first :: rest

/-- Repeats a part of a pass that only delivers. -/
def repeated (part : Pass Unit) : Nat → Pass Unit
  | 0 => return ()
  | n + 1 => do
    part
    repeated part n

/-- The tagged form of the next element, where it looks different outside. -/
def element (p : Payload) : Pass Bytes := do
  let wire ← exactly p.origin (p.wireSize?.getD 0)
  Task.tagged p wire

/-- Delivers one element behind its length. -/
def text (origin : String) : Pass Unit := do
  let n ← length origin
  deliver (Task.lengthBytes n)
  forward origin n

/-- Delivers `n` elements. -/
def elements (p : Payload) (n : Nat) : Pass Unit :=
  match p.kind.size?, p.conversion with
  | none, _ => repeated (text p.origin) n
  | some size, .identity => forward p.origin (n * size)
  | some _, _ => repeated (do deliver (← element p)) n

/-- The bytes of `n` elements that are hidden in the tagged message, without any lengths. -/
def hiddenElements (p : Payload) (n : Nat) : Pass Bytes :=
  match p.wireSize? with
  | some size => exactly p.origin (n * size)
  | none => do
    let elements ← times (do exactly p.origin (← length p.origin)) n
    return elements.flatten

/-- The bytes of data that is hidden in the tagged message. -/
def hidden (p : Payload) : Pass Bytes := do
  let n ← match p.count with
    | .fixed n => pure n
    | .fromWire => length p.origin
  hiddenElements p n

def put (name : String) (value : Property) : Pass Unit := fun l =>
  (.ok (), { l with properties := l.properties.put name value })

/-- Delivers the lowest bytes of a property, or of the literal that stands for it. -/
def loaded (name origin : String) (literal : Option Int64) (size : Nat) : Pass Unit := do
  match literal <|> (← get).properties.int? name with
  | some v => deliver (Bytes.ofInt size v.toInt)
  | none => throw (.missingProperty name origin)

def derive (derivation : Derivation) : Pass Unit := fun l =>
  match l.properties.derive derivation with
  | .ok properties => (.ok (), { l with properties })
  | .error e => (.error e, l)

/-- Goes over data that is hidden in the tagged message, and saves it if that is its use. -/
def hide (p : Payload) : Pass Unit := do
  let bytes ← hidden p
  match p.use with
  | .saved name => put name (Task.saved p bytes)
  | _ => return ()

/-- Delivers the number of elements that the source tells, then the elements. -/
def counted (p : Payload) : Pass Unit := do
  let n ← length p.origin
  deliver (Task.lengthBytes n)
  elements p n

/-- The data of a gap. -/
def payload (p : Payload) : Pass Unit :=
  match p.use with
  | .skipped | .saved _ => hide p
  | .loaded name literal => loaded name p.origin literal (p.kind.size?.getD 0)
  | .exchanged =>
    match p.count with
    | .fixed n => elements p n
    | .fromWire => counted p

def gap (g : Gap) : Pass Unit :=
  match g.content with
  | .nothing => deliver g.template
  | .derivation derivation _ => do
    derive derivation
    deliver g.template
  | .data p => do
    deliver g.template
    payload p

def gaps : List Gap → Pass Unit
  | [] => pure ()
  | g :: rest => do
    gap g
    gaps rest

section
variable {α β : Type}

theorem run_bind_ok {p : Pass α} {q : α → Pass β} {l l' : Ledger} {a : α}
    (h : p.run l = (.ok a, l')) :
    (p >>= q).run l = (q a).run l' := Reading.run_bind_ok h

theorem run_bind_error {p : Pass α} {q : α → Pass β} {l l' : Ledger} {e : Error}
    (h : p.run l = (.error e, l')) :
    (p >>= q).run l = (.error e, l') := Reading.run_bind_error h

/-- Parts of a pass that end alike go on alike. -/
theorem run_bind_congr {p p' : Pass α} {l l' : Ledger} (alike : p.run l = p'.run l')
    (q : α → Pass β) : (p >>= q).run l = (p' >>= q).run l' := by
  generalize h : p'.run l' = answer at alike
  obtain ⟨_ | a, l''⟩ := answer
  · rw [run_bind_error alike, run_bind_error h]
  · rw [run_bind_ok alike, run_bind_ok h]

theorem run_deliver (bytes : Bytes) (l : Ledger) :
    (deliver bytes).run l = (.ok (), { l with delivered := l.delivered ++ bytes }) := rfl

theorem run_exactly (origin : String) (n : Nat) (l : Ledger) :
    (exactly origin n).run l =
      if n ≤ l.wire.length then (.ok (l.wire.take n), l.withWire (l.wire.drop n))
      else (.error (l.contents.shortage origin (n - l.wire.length)), l.withWire []) := rfl

theorem run_forward (origin : String) (n : Nat) (l : Ledger) :
    (forward origin n).run l =
      if n ≤ l.wire.length then
        (.ok (), { l.withWire (l.wire.drop n) with delivered := l.delivered ++ l.wire.take n })
      else
        (.error (l.contents.shortage origin (n - l.wire.length)),
          { l.withWire [] with delivered := l.delivered ++ l.wire.take n }) := by
  rw [forward, run_bind_ok (Reading.run_get l), run_bind_ok (run_deliver (l.wire.take n) l)]
  have taken := run_exactly origin n { l with delivered := l.delivered ++ l.wire.take n }
  by_cases enough : n ≤ l.wire.length
  · rw [run_bind_ok (taken.trans (if_pos enough)), if_pos enough]
    rfl
  · rw [run_bind_error (taken.trans (if_neg enough)), if_neg enough]
    rfl

/-- Bytes may be forwarded in parts. -/
theorem forward_split {origin : String} {n : Nat} {l : Ledger} {first later : Bytes}
    (split : l.wire = first ++ later) (bound : first.length ≤ n) :
    (forward origin n).run l =
      (forward origin (n - first.length)).run
        { l.withWire later with delivered := l.delivered ++ first } := by
  have taken : l.wire.take n = first ++ later.take (n - first.length) := by
    rw [split, List.take_append, List.take_of_length_le bound]
  have dropped : l.wire.drop n = later.drop (n - first.length) := by
    rw [split, List.drop_append, List.drop_of_length_le bound, List.nil_append]
  have size : l.wire.length = first.length + later.length := by rw [split, List.length_append]
  rw [run_forward, run_forward, taken, dropped, size]
  by_cases enough : n ≤ first.length + later.length
  · rw [if_pos enough, if_pos (by simp only [Ledger.wire, Ledger.withWire]; omega)]
    simp [Ledger.withWire, Ledger.wire]
  · rw [if_neg enough, if_neg (by simp only [Ledger.wire, Ledger.withWire]; omega)]
    have missing : n - (first.length + later.length) = n - first.length - later.length := by omega
    simp [Ledger.withWire, Ledger.wire, Contents.shortage, missing]

theorem run_derive (derivation : Derivation) (l : Ledger) :
    (derive derivation).run l =
      match l.properties.derive derivation with
      | .ok properties => (.ok (), { l with properties })
      | .error e => (.error e, l) := rfl

theorem bind_assoc {γ : Type} (p : Pass α) (q : α → Pass β) (r : β → Pass γ) :
    (p >>= q >>= r) = (p >>= fun a => q a >>= r) := LawfulMonad.bind_assoc p q r

theorem bind_unit (p : Pass Unit) : (p >>= fun _ => pure ()) = p := bind_pure_unit

theorem gaps_single (g : Gap) : gaps [g] = gap g := bind_unit (gap g)

theorem gaps_append (first further : List Gap) :
    gaps (first ++ further) = (do gaps first; gaps further) := by
  induction first with
  | nil => rfl
  | cons g rest ih =>
    simp only [List.cons_append, gaps, ih]
    exact (bind_assoc ..).symm

theorem payload_hidden {p : Payload} (hidden : p.use.isHidden = true) : payload p = hide p := by
  unfold payload
  cases use : p.use with
  | skipped | saved => rfl
  | loaded | exchanged =>
    rw [use] at hidden
    cases hidden

theorem bind_ok {p : Pass α} {q : α → Pass β} {l l'' : Ledger} {b : β}
    (h : (p >>= q).run l = (.ok b, l'')) :
    ∃ a l', p.run l = (.ok a, l') ∧ (q a).run l' = (.ok b, l'') := by
  generalize first : p.run l = answer
  obtain ⟨_ | a, l'⟩ := answer
  · rw [run_bind_error first] at h
    cases h
  · exact ⟨a, l', rfl, run_bind_ok first ▸ h⟩

theorem exactly_ok {origin : String} {n : Nat} {l l' : Ledger} {bytes : Bytes}
    (h : (exactly origin n).run l = (.ok bytes, l')) :
    bytes.length = n ∧ l.wire = bytes ++ l'.wire ∧ l' = l.withWire l'.wire := by
  rw [run_exactly] at h
  split at h
  · rename_i enough
    cases h
    exact ⟨List.length_take_of_le enough, (List.take_append_drop n l.wire).symm, rfl⟩
  · cases h

theorem element_ok {p : Payload} {l l' : Ledger} {bytes : Bytes}
    (h : (element p).run l = (.ok bytes, l')) :
    ∃ wire, wire.length = p.wireSize?.getD 0 ∧ Task.tagged p wire = .ok bytes ∧
      l.wire = wire ++ l'.wire ∧
      l' = l.withWire l'.wire := by
  obtain ⟨wire, l₁, taken, tagged⟩ := bind_ok h
  obtain ⟨size, split, rest⟩ := exactly_ok taken
  cases result : Task.tagged p wire with
  | ok bytes' =>
    rw [result] at tagged
    cases tagged
    exact ⟨wire, size, result, split, rest⟩
  | error e =>
    rw [result] at tagged
    cases tagged

/-- The part of a pass takes every ledger to one that stands to it as the relation says. -/
def Leads (R : Ledger → Ledger → Prop) (p : Pass α) : Prop := ∀ l : Ledger, R l (p.run l).2

/-- A relation of ledgers that holds on, whatever is delivered and taken from the front. -/
structure Onward (R : Ledger → Ledger → Prop) : Prop where
  refl : ∀ l, R l l
  trans : ∀ {l l' l''}, R l l' → R l' l'' → R l l''
  delivers : ∀ l bytes, R l { l with delivered := l.delivered ++ bytes }
  takes : ∀ l n, R l (l.withWire (l.wire.drop n))

/-- The relation holds on where a property is put under the name. -/
def PutsOnward (R : Ledger → Ledger → Prop) (name : String) : Prop :=
  ∀ l value, R l { l with properties := l.properties.put name value }

/-- The relation holds on where properties are derived. -/
def DerivesOnward (R : Ledger → Ledger → Prop) (derivation : Derivation) : Prop :=
  ∀ (l : Ledger) properties, l.properties.derive derivation = .ok properties →
    R l { l with properties }

namespace Onward

variable {R : Ledger → Ledger → Prop} (onward : Onward R)
include onward

theorem done (a : α) : Leads R (pure a) := fun l => onward.refl l

theorem failed (e : Error) : Leads R (throw e : Pass α) := fun l => onward.refl l

theorem state : Leads R (get : Pass Ledger) := fun l => onward.refl l

theorem bind {p : Pass α} {q : α → Pass β} (first : Leads R p) (rest : ∀ a, Leads R (q a)) :
    Leads R (p >>= q) := by
  intro l
  have led := first l
  generalize h : p.run l = answer at led
  obtain ⟨_ | a, l'⟩ := answer
  · rwa [run_bind_error h]
  · rw [run_bind_ok h]
    exact onward.trans led (rest a l')

theorem times {p : Pass α} (part : Leads R p) (n : Nat) : Leads R (Pass.times p n) := by
  induction n with
  | zero => exact onward.done []
  | succ n ih =>
    exact onward.bind part fun first => onward.bind ih fun rest => onward.done (first :: rest)

theorem repeated {p : Pass Unit} (part : Leads R p) (n : Nat) : Leads R (Pass.repeated p n) := by
  induction n with
  | zero => exact onward.done ()
  | succ n ih => exact onward.bind part fun _ => ih

theorem deliver (bytes : Bytes) : Leads R (Pass.deliver bytes) := fun l => onward.delivers l bytes

theorem exactly (origin : String) (n : Nat) : Leads R (Pass.exactly origin n) := by
  intro l
  have emptied := onward.takes l l.wire.length
  rw [List.drop_length] at emptied
  rw [run_exactly]
  split
  · exact onward.takes l n
  · exact emptied

theorem forward (origin : String) (n : Nat) : Leads R (Pass.forward origin n) :=
  onward.bind onward.state fun _ => onward.bind (onward.deliver _) fun _ =>
    onward.bind (onward.exactly origin n) fun _ => onward.done ()

theorem length (origin : String) : Leads R (Pass.length origin) := by
  apply onward.bind (onward.exactly origin 4)
  intro bytes
  dsimp only
  cases (Word.ofBytes bytes).length? with
  | some n => exact onward.done n
  | none => exact onward.failed _

theorem element (p : Payload) : Leads R (Pass.element p) := by
  apply onward.bind (onward.exactly _ _)
  intro wire
  cases Task.tagged p wire with
  | ok bytes => exact onward.done bytes
  | error e => exact onward.failed e

theorem converted (p : Payload) : Leads R (do Pass.deliver (← Pass.element p)) :=
  onward.bind (onward.element p) onward.deliver

theorem text (origin : String) : Leads R (Pass.text origin) :=
  onward.bind (onward.length origin) fun n => onward.bind (onward.deliver _) fun _ =>
    onward.forward origin n

theorem elements (p : Payload) (n : Nat) : Leads R (Pass.elements p n) := by
  unfold Pass.elements
  cases p.kind.size? with
  | none => exact onward.repeated (onward.text p.origin) n
  | some size =>
    cases p.conversion with
    | identity => exact onward.forward p.origin (n * size)
    | narrow | pad => exact onward.repeated (onward.converted p) n

theorem counted (p : Payload) : Leads R (Pass.counted p) :=
  onward.bind (onward.length p.origin) fun n => onward.bind (onward.deliver _) fun _ =>
    onward.elements p n

theorem loaded (name origin : String) (literal : Option Int64) (size : Nat) :
    Leads R (Pass.loaded name origin literal size) := by
  apply onward.bind onward.state
  intro l
  cases (literal <|> l.properties.int? name) with
  | some v => exact onward.deliver _
  | none => exact onward.failed _

theorem hiddenElements (p : Payload) (n : Nat) : Leads R (Pass.hiddenElements p n) := by
  unfold Pass.hiddenElements
  cases p.wireSize? with
  | some size => exact onward.exactly p.origin (n * size)
  | none =>
    have element : Leads R (do Pass.exactly p.origin (← Pass.length p.origin)) :=
      onward.bind (onward.length p.origin) fun n => onward.exactly p.origin n
    exact onward.bind (onward.times element n) fun elements => onward.done elements.flatten

/-- The bytes of hidden data are read before anything is saved. -/
theorem hidden (p : Payload) : Leads R (Pass.hidden p) := by
  unfold Pass.hidden
  cases p.count with
  | fixed n => exact onward.bind (onward.done n) (onward.hiddenElements p)
  | fromWire => exact onward.bind (onward.length p.origin) (onward.hiddenElements p)

theorem hide {p : Payload} (puts : ∀ name, p.use = .saved name → PutsOnward R name) :
    Leads R (Pass.hide p) := by
  apply onward.bind (onward.hidden p)
  intro bytes
  cases use : p.use with
  | saved name => exact fun l => puts name use l _
  | skipped | loaded | exchanged => exact onward.done ()

theorem derive {derivation : Derivation} (derives : DerivesOnward R derivation) :
    Leads R (Pass.derive derivation) := by
  intro l
  rw [run_derive]
  cases derived : l.properties.derive derivation with
  | ok properties => exact derives l properties derived
  | error e => exact onward.refl l

theorem payload {p : Payload} (puts : ∀ name, p.use = .saved name → PutsOnward R name) :
    Leads R (Pass.payload p) := by
  unfold Pass.payload
  cases use : p.use with
  | skipped | saved => exact onward.hide puts
  | loaded name literal => exact onward.loaded name p.origin literal _
  | exchanged =>
    cases p.count with
    | fixed n => exact onward.elements p n
    | fromWire => exact onward.counted p

theorem gap {g : Gap}
    (puts : ∀ p name, g.payload? = some p → p.use = .saved name → PutsOnward R name)
    (derives : ∀ derivation origin, g.content = .derivation derivation origin →
      DerivesOnward R derivation) : Leads R (Pass.gap g) := by
  obtain ⟨words, content⟩ := g
  cases content with
  | nothing => exact onward.deliver _
  | derivation derivation origin =>
    exact onward.bind (onward.derive (derives derivation origin rfl)) fun _ => onward.deliver _
  | data p =>
    exact onward.bind (onward.deliver _) fun _ => onward.payload fun name => puts p name rfl

theorem gaps {gs : List Gap} (each : ∀ g ∈ gs, Leads R (Pass.gap g)) :
    Leads R (Pass.gaps gs) := by
  induction gs with
  | nil => exact onward.done ()
  | cons g rest ih =>
    obtain ⟨first, further⟩ := List.forall_mem_cons.mp each
    exact onward.bind first fun _ => ih further

end Onward

/-- The part of a pass delivers further bytes, and takes bytes from the front. -/
def Keeps (p : Pass α) : Prop := ∀ l : Ledger, l.Extends (p.run l).2

theorem onward_extends : Onward Ledger.Extends where
  refl := .refl
  trans := .trans
  delivers l bytes := ⟨List.prefix_append l.delivered bytes, List.suffix_refl _, rfl, rfl⟩
  takes l n := ⟨List.prefix_refl _, List.drop_suffix n l.wire, rfl, rfl⟩

theorem keeps_hide (p : Payload) : Keeps (hide p) :=
  onward_extends.hide fun _ _ _ _ => ⟨List.prefix_refl _, List.suffix_refl _, rfl, rfl⟩

theorem keeps_derive (derivation : Derivation) : Keeps (derive derivation) :=
  onward_extends.derive fun _ _ _ => ⟨List.prefix_refl _, List.suffix_refl _, rfl, rfl⟩

end

end Pass

/-- Goes over the gaps of a layout once, with all that its source holds at hand. -/
def Layout.decodeOnce (l : Layout) (contents : Contents) (properties : Properties) :
    Except Error Unit × Ledger :=
  (Pass.gaps l.gaps).run { contents, properties }

end TagWire
