import TagWire.Proofs.Layout.Heads
import TagWire.Proofs.Layout.Loops

/-!
# Calls and tokens

Reading a section makes a call for each field, and tokens pay for the calls: each takes at least one
that no other call takes. So there are no more calls than tokens, whatever lengths lists declare and
whichever fields are faulty, and reading ends where the section does.

- `Parse.FieldRun`, `Parse.ListRun`, `Parse.SectionRun`: reading without fuel, and the calls it makes.
- `Parse.Paid`: calls that tokens pay for.
- `Parse.exists_sectionRun`, `Parse.SectionRun.reads`: reading comes to an end, and fuel cuts none short.
- `readFields_calls`: the calls of a whole section, and the gaps of its layout.
-/

namespace TagWire.Layout

namespace Parse

/-- A call that reads a field: the tokens in front of it, and those that it leaves. -/
structure Call where
  before : List Token
  behind : List Token
  deriving DecidableEq, Repr

/-- The call is made with a token left, and takes at least one of those that are. -/
def Call.Advances (c : Call) : Prop := c.before ≠ [] ∧ c.behind <:+ c.before.tail

mutual

/-- Reading a field, which is none where its head is faulty. -/
inductive FieldRun : Scope → Progress → List Call → Option Field → Progress → Prop
  | faulty {scope p finding rest} (head : (Head.read scope).run p.rest = (.error finding, rest)) :
    FieldRun scope p [⟨p.rest, rest⟩] none ⟨rest, p.findings ++ [finding]⟩
  | whole {scope p f rest} (head : (Head.read scope).run p.rest = (.ok (.whole f), rest)) :
    FieldRun scope p [⟨p.rest, rest⟩] (some f) { p with rest }
  | group {scope p isHidden words item length inside calls fields p'}
    (head : (Head.read scope).run p.rest = (.ok (.opening isHidden words item length), inside))
    (list : ListRun { scope with item, isHidden } length 0 { p with rest := inside }
      calls fields p') :
    FieldRun scope p (⟨p.rest, p'.rest⟩ :: calls) (some (.group isHidden words fields)) p'

/-- Reading on in a list, of which some fields have been found. -/
inductive ListRun :
    Scope → (length found : Nat) → Progress → List Call → List Field → Progress → Prop
  | complete {scope length found p} (enough : length ≤ found) :
    ListRun scope length found p [] [] p
  | short {scope length found p} (lacking : found < length) (none_left : p.rest = []) :
    ListRun scope length found p [] []
      { p with findings := p.findings ++ [.fault scope.stop "" (.listTooShort length found)] }
  | further {scope length found p calls first p' calls' others p''} (lacking : found < length)
    (some_left : p.rest ≠ []) (field : FieldRun scope p calls first p')
    (list : ListRun scope length
      (if scope.isHidden ∨ countsAsVisible first then found + 1 else found) p' calls' others p'') :
    ListRun scope length found p (calls ++ calls') (first.toList ++ others) p''

end

/-- The progress with a finding, if there is one. -/
def noting (found : Prop) [Decidable found] (finding : Finding) (p : Progress) : Progress :=
  if found then { p with findings := p.findings ++ [finding] } else p

theorem noting_rest (found : Prop) [Decidable found] (finding : Finding) (p : Progress) :
    (noting found finding p).rest = p.rest := by
  unfold noting
  split <;> rfl

/-- Reading on in a section, of which some visible fields have been read. -/
inductive SectionRun (wrapped : Bool) (scope : Scope) :
    (visible : Nat) → Progress → List Call → List Field → Progress → Prop
  | done {visible p} (none_left : p.rest = []) : SectionRun wrapped scope visible p [] [] p
  | further {visible p t rest calls first p' visible' calls' others p''}
    (split : p.rest = t :: rest) (field : FieldRun scope p calls first p')
    (count : visible' = if countsAsVisible first then visible + 1 else visible)
    (fields : SectionRun wrapped scope visible'
      (noting (countsAsVisible first ∧ !wrapped ∧ visible' = 2) (t.fault .secondMessage) p')
      calls' others p'') :
    SectionRun wrapped scope visible p (calls ++ calls') (first.toList ++ others) p''

theorem Call.Advances.fewer {c : Call} (advances : c.Advances) :
    c.behind.length < c.before.length := by
  have shorter := advances.2.length_le
  have some_left := List.length_pos_iff.mpr advances.1
  rw [List.length_tail] at shorter
  omega

theorem advances_head (scope : Scope) {tokens : List Token} (some_left : tokens ≠ []) :
    Call.Advances ⟨tokens, ((Head.read scope).run tokens).2⟩ := by
  obtain ⟨first, rest, rfl, shorter⟩ := Head.read_shorter scope some_left
  exact ⟨some_left, shorter⟩

/-- Calls that go forward from some tokens to those that are left, each paid for by a token. -/
structure Paid (tokens : List Token) (calls : List Call) (rest : List Token) : Prop where
  forward : ∀ c ∈ calls, c.before <:+ tokens ∧ c.Advances
  left : rest <:+ tokens
  enough : calls.length + rest.length ≤ tokens.length

namespace Paid

variable {tokens mid rest : List Token} {calls calls' : List Call}

theorem nothing (tokens : List Token) : Paid tokens [] tokens :=
  ⟨List.forall_mem_nil _, List.suffix_refl _, Nat.le_of_eq (Nat.zero_add _)⟩

theorem behind {c : Call} (shorter : mid <:+ tokens)
    (forward : ∀ c ∈ calls, c.before <:+ mid ∧ c.Advances) (member : c ∈ calls) :
    c.before <:+ tokens ∧ c.Advances :=
  ⟨(forward c member).1.trans shorter, (forward c member).2⟩

theorem append (first : Paid tokens calls mid) (others : Paid mid calls' rest) :
    Paid tokens (calls ++ calls') rest where
  forward := List.forall_mem_append.mpr
    ⟨first.forward, fun _ member => behind first.left others.forward member⟩
  left := others.left.trans first.left
  enough := by
    have paid := first.enough
    have paid' := others.enough
    rw [List.length_append]
    omega

/-- A call is paid for by its first token, and the calls inside it by the others. -/
theorem call (head : Call.Advances ⟨tokens, mid⟩) (inside : Paid mid calls rest) :
    Paid tokens (⟨tokens, rest⟩ :: calls) rest := by
  have shorter : mid <:+ tokens := head.2.trans (List.tail_suffix tokens)
  refine ⟨List.forall_mem_cons.mpr ⟨⟨List.suffix_refl _, head.1, inside.left.trans head.2⟩, ?_⟩,
    inside.left.trans shorter, ?_⟩
  · exact fun _ member => behind shorter inside.forward member
  · have paid := inside.enough
    have fewer : mid.length < tokens.length := head.fewer
    rw [List.length_cons]
    omega

end Paid

mutual

theorem FieldRun.paid {scope : Scope} {p p' : Progress} {calls : List Call} {f : Option Field}
    (run : FieldRun scope p calls f p') (some_left : p.rest ≠ []) : Paid p.rest calls p'.rest :=
  match run with
  | .faulty head | .whole head => by
    have advances := advances_head scope some_left
    rw [head] at advances
    exact .call advances (.nothing _)
  | .group head list => by
    have advances := advances_head scope some_left
    rw [head] at advances
    exact .call advances list.paid

theorem ListRun.paid {scope : Scope} {length found : Nat} {p p' : Progress} {calls : List Call}
    {fields : List Field} (run : ListRun scope length found p calls fields p') :
    Paid p.rest calls p'.rest :=
  match run with
  | .complete _ | .short _ _ => .nothing _
  | .further _ some_left field list => (field.paid some_left).append list.paid

end

section
variable {wrapped : Bool} {scope : Scope} {visible : Nat} {p p' : Progress} {calls : List Call}
  {fields : List Field}

/-- The first of the calls is that of the field itself. -/
theorem FieldRun.member {f : Option Field} (run : FieldRun scope p calls f p') :
    ⟨p.rest, p'.rest⟩ ∈ calls := by
  cases run <;> exact List.mem_cons_self

theorem FieldRun.fewer {f : Option Field} (run : FieldRun scope p calls f p')
    (some_left : p.rest ≠ []) : p'.rest.length < p.rest.length :=
  ((run.paid some_left).forward _ run.member).2.fewer

theorem SectionRun.paid (run : SectionRun wrapped scope visible p calls fields p') :
    Paid p.rest calls p'.rest := by
  induction run with
  | done => exact .nothing _
  | further split field _ _ ih =>
    rw [noting_rest] at ih
    exact (field.paid (split ▸ List.cons_ne_nil _ _)).append ih

/-- Reading a section ends where the section does. -/
theorem SectionRun.finished (run : SectionRun wrapped scope visible p calls fields p') :
    p'.rest = [] := by
  induction run with
  | done none_left => exact none_left
  | further _ _ _ _ ih => exact ih

end

/-! ## Gaps -/

/-- A field that is more than the beginning of a list has one gap. -/
theorem length_gaps_whole {scope : Scope} {tokens rest : List Token} {f : Field}
    (head : (Head.read scope).run tokens = (.ok (.whole f), rest)) (waiting : List Word) :
    (f.gaps waiting).1.length = 1 := by
  obtain ⟨derivation, origin, ⟨⟩, -⟩ | ⟨use, matched, -⟩ := Head.read_ok head
  · rfl
  · cases f with
    | derive | group => cases matched
    | data words payload =>
      rw [Field.gaps]
      split <;> rfl

theorem length_allGaps_append (waiting : List Word) (first others : List Field) :
    ∃ between, (Field.allGaps waiting (first ++ others)).1.length =
      (Field.allGaps waiting first).1.length + (Field.allGaps between others).1.length := by
  induction first generalizing waiting with
  | nil => exact ⟨waiting, (Nat.zero_add _).symm⟩
  | cons f rest ih =>
    obtain ⟨between, sum⟩ := ih (f.gaps waiting).2
    refine ⟨between, ?_⟩
    simp only [List.cons_append, Field.allGaps, List.length_append, sum, Nat.add_assoc]

/-- Fields have at most so many gaps, whatever tag words wait for them. -/
def GapsWithin (n : Nat) (fields : List Field) : Prop :=
  ∀ waiting, (Field.allGaps waiting fields).1.length ≤ n

namespace GapsWithin

theorem none : GapsWithin 0 [] := fun _ => Nat.le_refl _

theorem single {n : Nat} {f : Field} (few : ∀ waiting, (f.gaps waiting).1.length ≤ n) :
    GapsWithin n [f] := by
  intro waiting
  simpa [Field.allGaps] using few waiting

theorem append {n m : Nat} {first others : List Field} (few : GapsWithin n first)
    (few_others : GapsWithin m others) : GapsWithin (n + m) (first ++ others) := by
  intro waiting
  obtain ⟨between, sum⟩ := length_allGaps_append waiting first others
  rw [sum]
  exact Nat.add_le_add (few waiting) (few_others between)

end GapsWithin

mutual

theorem FieldRun.gaps {scope : Scope} {p p' : Progress} {calls : List Call} {f : Option Field}
    (run : FieldRun scope p calls f p') : GapsWithin calls.length f.toList :=
  match run with
  | .faulty _ => fun _ => Nat.zero_le 1
  | .whole head => .single fun waiting => Nat.le_of_eq (length_gaps_whole head waiting)
  | .group _ list => .single fun _ => Nat.le_succ_of_le (list.gaps _)

theorem ListRun.gaps {scope : Scope} {length found : Nat} {p p' : Progress} {calls : List Call}
    {fields : List Field} (run : ListRun scope length found p calls fields p') :
    GapsWithin calls.length fields :=
  match run with
  | .complete _ | .short _ _ => .none
  | .further _ _ field list => by
    rw [List.length_append]
    exact field.gaps.append list.gaps

end

theorem SectionRun.gaps {wrapped : Bool} {scope : Scope} {visible : Nat} {p p' : Progress}
    {calls : List Call} {fields : List Field}
    (run : SectionRun wrapped scope visible p calls fields p') :
    GapsWithin calls.length fields := by
  induction run with
  | done => exact .none
  | further _ field _ _ ih =>
    rw [List.length_append]
    exact field.gaps.append ih

/-! ## Ends -/

theorem exists_fieldRun (scope : Scope) {p : Progress} (some_left : p.rest ≠ [])
    (inner : ∀ scope length (q : Progress), q.rest.length < p.rest.length →
      ∃ calls fields q', ListRun scope length 0 q calls fields q') :
    ∃ calls f p', FieldRun scope p calls f p' := by
  have advances := advances_head scope some_left
  generalize head : (Head.read scope).run p.rest = answer at advances
  obtain ⟨finding | f | ⟨isHidden, words, item, length⟩, inside⟩ := answer
  · exact ⟨_, _, _, .faulty head⟩
  · exact ⟨_, _, _, .whole head⟩
  · obtain ⟨calls, fields, q', list⟩ :=
      inner { scope with item, isHidden } length { p with rest := inside } advances.fewer
    exact ⟨_, _, _, .group head list⟩

/-- Reading a list comes to an end, because each field leaves fewer tokens. -/
theorem exists_listRun (scope : Scope) (length found : Nat) (p : Progress) :
    ∃ calls fields p', ListRun scope length found p calls fields p' := by
  generalize size : p.rest.length = n
  -- on the tokens that are left; the length may be any number
  induction n using Nat.strongRecOn generalizing scope length found p with
  | ind n ih =>
    subst size
    by_cases complete : length ≤ found
    · exact ⟨_, _, _, .complete complete⟩
    have lacking := Nat.lt_of_not_le complete
    by_cases none_left : p.rest = []
    · exact ⟨_, _, _, .short lacking none_left⟩
    obtain ⟨calls, first, p', field⟩ := exists_fieldRun scope none_left
      fun scope length q fewer => ih _ fewer scope length 0 q rfl
    obtain ⟨calls', others, p'', list⟩ := ih _ (field.fewer none_left) scope length
      (if scope.isHidden ∨ countsAsVisible first then found + 1 else found) p' rfl
    exact ⟨_, _, _, .further lacking none_left field list⟩

theorem exists_sectionRun (wrapped : Bool) (scope : Scope) (visible : Nat) (p : Progress) :
    ∃ calls fields p', SectionRun wrapped scope visible p calls fields p' := by
  generalize size : p.rest.length = n
  induction n using Nat.strongRecOn generalizing visible p with
  | ind n ih =>
    subst size
    cases split : p.rest with
    | nil => exact ⟨_, _, _, .done split⟩
    | cons t rest =>
      have some_left : p.rest ≠ [] := split ▸ List.cons_ne_nil t rest
      obtain ⟨calls, first, p', field⟩ := exists_fieldRun scope some_left
        fun scope length q _ => exists_listRun scope length 0 q
      have fewer := field.fewer some_left
      generalize count : (if countsAsVisible first then visible + 1 else visible) = visible'
      obtain ⟨calls', others, p'', fields⟩ := ih _ fewer visible'
        (noting (countsAsVisible first ∧ !wrapped ∧ visible' = 2) (t.fault .secondMessage) p')
        (congrArg List.length (noting_rest ..))
      exact ⟨_, _, _, .further split field count.symm fields⟩

/-! ## Fuel -/

mutual

/-- The fuel does not count, where it is enough. -/
theorem FieldRun.reads {scope : Scope} {p p' : Progress} {calls : List Call} {f : Option Field}
    (run : FieldRun scope p calls f p') {fuel : Nat} (some_left : p.rest ≠ [])
    (enough : p.rest.length ≤ fuel) : readField fuel scope p = (f, p') :=
  match run with
  | .faulty head | .whole head => by rw [readField_run, head]
  | .group head list => by
    have advances := advances_head scope some_left
    rw [head] at advances
    rw [readField_run, head]
    dsimp only
    rw [list.reads (Nat.lt_of_lt_of_le advances.fewer enough)]

theorem ListRun.reads {scope : Scope} {length found : Nat} {p p' : Progress} {calls : List Call}
    {fields : List Field} (run : ListRun scope length found p calls fields p') {fuel : Nat}
    (enough : p.rest.length < fuel) : listFields fuel scope length found p = (fields, p') := by
  obtain ⟨fuel, rfl⟩ := Nat.exists_eq_add_one_of_ne_zero (Nat.ne_zero_of_lt enough)
  have enough := Nat.le_of_lt_succ enough
  rw [listFields_succ]
  exact match run with
  | .complete complete => if_pos complete
  | .short lacking none_left => by
    rw [if_neg (Nat.not_le_of_lt lacking), if_pos none_left]
  | .further lacking some_left field list => by
    have fewer := field.fewer some_left
    rw [if_neg (Nat.not_le_of_lt lacking), if_neg some_left, field.reads some_left enough]
    dsimp only
    rw [list.reads (Nat.lt_of_lt_of_le fewer enough)]

end

theorem SectionRun.reads {wrapped : Bool} {scope : Scope} {visible : Nat} {p p' : Progress}
    {calls : List Call} {fields : List Field}
    (run : SectionRun wrapped scope visible p calls fields p') {fuel : Nat}
    (enough : p.rest.length < fuel) : sectionFields wrapped fuel scope visible p = (fields, p') := by
  induction run generalizing fuel with
  | done none_left =>
    obtain ⟨fuel, rfl⟩ := Nat.exists_eq_add_one_of_ne_zero (Nat.ne_zero_of_lt enough)
    rw [sectionFields_succ, none_left]
  | @further _ p t _ _ first p' visible' _ _ _ split field count _ ih =>
    obtain ⟨fuel, rfl⟩ := Nat.exists_eq_add_one_of_ne_zero (Nat.ne_zero_of_lt enough)
    have enough := Nat.le_of_lt_succ enough
    have some_left : p.rest ≠ [] := split ▸ List.cons_ne_nil _ _
    let noted := noting (countsAsVisible first ∧ !wrapped ∧ visible' = 2)
      (t.fault .secondMessage) p'
    have fewer : noted.rest.length < fuel := by
      rw [noting_rest]
      exact Nat.lt_of_lt_of_le (field.fewer some_left) enough
    rw [sectionFields_succ, split]
    dsimp only
    rw [field.reads some_left enough]
    dsimp only
    rw [← count]
    change (first.toList ++ (sectionFields wrapped fuel scope visible' noted).1,
      (sectionFields wrapped fuel scope visible' noted).2) = _
    rw [ih fewer]

end Parse

open Parse (Call GapsWithin SectionRun)

/-- Reading a whole section, with the calls that are made. -/
def ReadBy (tokens : List Token) (calls : List Call) (fields : List Field) (p : Progress) : Prop :=
  SectionRun (isWrapped tokens) ⟨Token.stopOf tokens, none, false⟩ 0 ⟨tokens, []⟩ calls fields p

theorem length_layOut {n : Nat} {fields : List Field} (few : GapsWithin n fields)
    (waiting : List Word) : (Field.layOut waiting fields).length ≤ n + 1 := by
  have gaps := few waiting
  rw [Field.layOut]
  dsimp only
  split
  · exact Nat.le_succ_of_le gaps
  · rw [List.length_append]
    exact Nat.succ_le_succ gaps

/-- A section is read to its end, by calls that each go forward, of which there are no more than
tokens, whichever fields are faulty and whatever lengths lists declare. There is at most one gap for
each token, and one for the words at the end. -/
theorem readFields_calls (tokens : List Token) :
    (∃ calls p, ReadBy tokens calls (readFields tokens).1 p) ∧
      (∀ calls fields p, ReadBy tokens calls fields p →
        readFields tokens = (fields, p.findings) ∧ p.rest = [] ∧
          (∀ c ∈ calls, c.before <:+ tokens ∧ c.Advances) ∧ calls.length ≤ tokens.length) ∧
      (ofFields tokens (readFields tokens).1).gaps.length ≤ tokens.length + 1 := by
  have enough : (⟨tokens, []⟩ : Progress).rest.length < tokens.length + 1 :=
    Nat.lt_succ_self tokens.length
  have few {calls fields p} (run : ReadBy tokens calls fields p) : calls.length ≤ tokens.length :=
    Nat.le_trans (Nat.le_add_right ..) run.paid.enough
  have reads {calls fields p} (run : ReadBy tokens calls fields p) :
      readFields tokens = (fields, p.findings) :=
    congrArg (fun read => (read.1, read.2.findings)) (run.reads enough)
  obtain ⟨calls, fields, p, run⟩ : ∃ calls fields p, ReadBy tokens calls fields p :=
    Parse.exists_sectionRun ..
  have same : (readFields tokens).1 = fields := congrArg Prod.fst (reads run)
  rw [same]
  have gaps := length_layOut run.gaps (wrapping tokens fields)
  exact ⟨⟨calls, p, run⟩,
    fun _ _ _ run => ⟨reads run, run.finished, run.paid.forward, few run⟩,
    Nat.le_trans gaps (Nat.succ_le_succ (few run))⟩

/-- A text with lists that are not as long as they say, of which the inner one has only a faulty field. -/
def endless : List Token := Token.scan "list 2147483647 int32 * list 3 foo *"

/-- Both lists are found to be too short where the text ends. -/
theorem readFields_endless :
    endless.length = 8 ∧
      (readFields endless).2 = [.fault 31 "foo" .unknownType, .fault 36 "" (.listTooShort 3 1),
        .fault 36 "" (.listTooShort 2147483647 2)] ∧
      (∃ calls p, ReadBy endless calls (readFields endless).1 p ∧ p.rest = [] ∧
        calls.length ≤ 8) ∧
      (ofFields endless (readFields endless).1).gaps.length ≤ 9 := by
  have size : endless.length = 8 := by decide +kernel
  obtain ⟨⟨calls, p, run⟩, bounded, few_gaps⟩ := readFields_calls endless
  obtain ⟨-, finished, -, few⟩ := bounded calls _ p run
  rw [size] at few few_gaps
  exact ⟨size, by decide +kernel, ⟨calls, p, run, finished, few⟩, few_gaps⟩

end TagWire.Layout
