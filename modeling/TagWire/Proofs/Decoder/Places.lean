import Mathlib.Data.List.Forall2
import TagWire.Proofs.Decoder.OnePass
import TagWire.Proofs.Tagged.Contribution

/-!
# Places of fields

Where the visible data of a layout is met by a pass, and where it is in the value that is read.

- `Pass.reached`: the data that a pass reaches, with the properties that are there by then.
- `Field.placed`, `Field.allPlaced`: the data of fields, with its values.
- `Payload.Loads`: the value of data that is loaded.
-/

namespace TagWire

/-- Data that is loaded is the lowest bytes of its literal, or of the integer under its name. -/
def Payload.Loads (p : Payload) (properties : Properties) (v : Value) : Prop :=
  ∀ name literal, p.use = .loaded name literal →
    ∃ i : Int64, (literal <|> properties.int? name) = some i ∧
      v = Value.ofPayload p.kind (Bytes.ofInt (p.kind.size?.getD 0) i.toInt)

theorem Payload.loads_unloaded {p : Payload} (unloaded : p.use.isLoaded = false)
    (properties : Properties) (v : Value) : p.Loads properties v := by
  intro name literal use
  rw [use] at unloaded
  cases unloaded

/-- The data of a gap that is part of the tagged message. -/
def Gap.shown? (g : Gap) : Option Payload := g.payload?.filter fun p => !p.use.isHidden

theorem Gap.shown_hidden {words : List Word} {p : Payload} (hidden : p.use.isHidden = true) :
    (⟨words, .data p⟩ : Gap).shown? = none := by
  simp [shown?, payload?, Option.filter, hidden]

theorem Gap.shown_visible {words : List Word} {p : Payload} (visible : p.use.isHidden = false) :
    (⟨words, .data p⟩ : Gap).shown? = some p := by
  simp [shown?, payload?, Option.filter, visible]

/-- The data is the same, and its value is what it is loaded with. -/
def Meets (station : Payload × Properties) (place : Payload × Value) : Prop :=
  station.1 = place.1 ∧ station.1.Loads station.2 place.2

namespace Pass

/-- The data that a pass reaches, with the properties that are there by then. -/
def reached : List Gap → Ledger → List (Payload × Properties)
  | [], _ => []
  | g :: rest, l => (g.shown?.map (·, l.properties)).toList ++ reached rest ((gap g).run l).2

theorem reached_single (g : Gap) (l : Ledger) :
    reached [g] l = (g.shown?.map (·, l.properties)).toList := List.append_nil _

theorem reached_append {first : List Gap} {l l' : Ledger} (run : (gaps first).run l = (.ok (), l'))
    (further : List Gap) : reached (first ++ further) l = reached first l ++ reached further l' := by
  induction first generalizing l with
  | nil =>
    cases run
    rfl
  | cons g rest ih =>
    obtain ⟨_, l₁, began, run⟩ := bind_ok run
    have behind : ((gap g).run l).2 = l₁ := by rw [began]
    rw [List.cons_append, reached, reached, behind, ih run, List.append_assoc]

end Pass

namespace Field

mutual

/-- The data of a field, with its values in the value of the field. -/
def placed : Field → Value → List (Payload × Value)
  | derive .., _ => []
  | data _ p, v => [(p, v)]
  | group _ _ fields, .list items => allPlaced fields items
  | group .., _ => []

/-- The data of fields, with its values in the values of those that are visible. -/
def allPlaced : List Field → List Value → List (Payload × Value)
  | [], _ => []
  | f :: rest, vs =>
    if f.isVisible then
      match vs with
      | [] => []
      | v :: others => f.placed v ++ allPlaced rest others
    else allPlaced rest vs

end

variable {f : Field} {fields : List Field}

theorem allPlaced_hidden (hidden : f.isVisible = false) (vs : List Value) :
    allPlaced (f :: fields) vs = allPlaced fields vs := by
  simp only [allPlaced, hidden, Bool.false_eq_true, if_false]

theorem allPlaced_visible (visible : f.isVisible = true) (v : Value) (vs : List Value) :
    allPlaced (f :: fields) (v :: vs) = f.placed v ++ allPlaced fields vs := by
  simp only [allPlaced, visible, if_true]

theorem allPlaced_nothing (hidden : ∀ f ∈ fields, f.isVisible = false) (vs : List Value) :
    allPlaced fields vs = [] := by
  induction fields with
  | nil => rfl
  | cons f rest ih =>
    rw [allPlaced_hidden (hidden f List.mem_cons_self)]
    exact ih fun f member => hidden f (List.mem_cons_of_mem _ member)

/-- The values of a field come before those of the others. -/
theorem allPlaced_cons {depth : Nat} {item : Option Kind} {bytes : Bytes} {vs : List Value}
    (contributes : f.Contributes depth item bytes vs) (others : List Value) :
    allPlaced (f :: fields) (vs ++ others) = allPlaced [f] vs ++ allPlaced fields others := by
  cases contributes with
  | nothing hidden =>
    rw [List.nil_append, allPlaced_hidden hidden, allPlaced_hidden hidden]
    rfl
  | item visible | own visible =>
    rw [List.singleton_append, allPlaced_visible visible, allPlaced_visible visible,
      List.append_assoc]
    rfl

end Field

end TagWire
