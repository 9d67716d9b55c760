import TagWire.Proofs.Layout.Sections
import TagWire.Registry

/-!
# Registries after a history of insertions

A registry holds, under each name, what the last sound entry of that name gave. An entry that is
refused leaves no trace, and a file is refused for the first of its bad entries.

- `Registry.insertEach`: insertions that may fail, one after the other.
- `Registry.LastSound`: the last sound declaration of a name in a history.
- `Registry.insertions_lastSound`: a registry after any history, and the registry of any file.
-/

namespace TagWire.Registry

open Layout (compileSections)

/-- The grammar gives a layout for requests, and perhaps one for replies. -/
def Declaration.Fits (d : Declaration) : Prop :=
  ∃ sections, compileSections d.grammar = .ok sections ∧
    (sections.length = 1 ∨ sections.length = 2)

/-- The entry that is refused, and what is said of it. -/
inductive Declaration.Refused (d : Declaration) : (message : String) → Prop
  | faulty {e : Error} (compiled : compileSections d.grammar = .error e) : Refused d e.message
  | crowded {sections : List Layout} (compiled : compileSections d.grammar = .ok sections)
      (many : 2 < sections.length) :
      Refused d ("expected at most 2 grammar sections, found " ++ toString sections.length)

/-- The entry is made of what is declared under the name. -/
structure Entry.Gives (entry : Entry) (name : String) (d : Declaration) : Prop where
  name : entry.name = name
  description : entry.description = d.description
  layouts : compileSections d.grammar = .ok (entry.request :: entry.reply.toList)

/-- The registry after insertions, of which each may fail. -/
def insertEach (r : Registry) : List (String × Declaration) → Registry
  | [] => r
  | (name, d) :: rest => (r.insert name d).2.insertEach rest

/-- What is declared under the name by the last insertion that is sound. -/
def LastSound (inserts : List (String × Declaration)) (name : String) (d : Declaration) : Prop :=
  ∃ before behind, inserts = before ++ (name, d) :: behind ∧ d.Fits ∧
    ∀ later ∈ behind, later.1 = name → ¬later.2.Fits

/-! ## One insertion -/

theorem compileSections_ne_nil {grammar : String} {layouts : List Layout}
    (compiled : compileSections grammar = .ok layouts) : layouts ≠ [] := by
  obtain ⟨_, rfl⟩ := Layout.compileSections_ok.mp compiled
  obtain ⟨_, _, _, divided⟩ := Layout.sections_first (Layout.Token.scan grammar)
  rw [divided]
  exact List.cons_ne_nil _ _

theorem Entry.Gives.fits {entry : Entry} {name : String} {d : Declaration}
    (gives : entry.Gives name d) : d.Fits := by
  refine ⟨_, gives.layouts, ?_⟩
  cases entry.reply with
  | none => exact .inl rfl
  | some reply => exact .inr rfl

theorem Declaration.Refused.unfit {d : Declaration} {message : String} (refused : d.Refused message) :
    ¬d.Fits := by
  rintro ⟨sections, compiled, few⟩
  cases refused with
  | faulty failed =>
    rw [failed] at compiled
    cases compiled
  | crowded compiled' many =>
    rw [compiled'] at compiled
    cases compiled
    omega

/-- An insertion succeeds and puts the entry in its place, or it is refused by name and the registry is
as before. -/
theorem insert_cases (r : Registry) (name : String) (d : Declaration) :
    (∃ entry : Entry, entry.Gives name d ∧
      r.insert name d = (.ok (), ⟨r.entries.insert name entry⟩)) ∨
      ∃ message, d.Refused message ∧ r.insert name d = (.error (.config name message), r) := by
  rw [insert]
  cases compiled : compileSections d.grammar with
  | error e => exact .inr ⟨e.message, .faulty compiled, rfl⟩
  | ok sections =>
    dsimp only
    split
    · rename_i many
      exact .inr ⟨_, .crowded compiled many, rfl⟩
    · match sections with
      | [] => exact absurd rfl (compileSections_ne_nil compiled)
      | [request] => exact .inl ⟨_, ⟨rfl, rfl, compiled⟩, rfl⟩
      | [request, reply] => exact .inl ⟨_, ⟨rfl, rfl, compiled⟩, rfl⟩
      | first :: second :: third :: others =>
        rename_i few
        simp only [List.length_cons] at few
        omega

/-- A sound declaration gives an entry. -/
theorem Declaration.Fits.gives {d : Declaration} (fits : d.Fits) (name : String) :
    ∃ entry : Entry, entry.Gives name d := by
  obtain ⟨entry, gives, -⟩ | ⟨message, refused, -⟩ := insert_cases empty name d
  · exact ⟨entry, gives⟩
  · exact absurd fits refused.unfit

/-- An entry that is made of a declaration is the only one. -/
theorem Entry.Gives.unique {entry entry' : Entry} {name : String} {d : Declaration}
    (gives : entry.Gives name d) (gives' : entry'.Gives name d) : entry = entry' := by
  obtain ⟨name_eq, description, layouts⟩ := gives
  obtain ⟨name_eq', description', layouts'⟩ := gives'
  obtain ⟨_, _, request, reply⟩ := entry
  obtain ⟨_, _, request', reply'⟩ := entry'
  rw [layouts'] at layouts
  simp only [Except.ok.injEq, List.cons.injEq] at layouts
  obtain ⟨rfl, replies⟩ := layouts
  obtain rfl : reply' = reply := by cases reply <;> cases reply' <;> simp_all
  simp_all

/-- An insertion adds its name if it is sound, and no other. -/
theorem mem_names_insert (r : Registry) (own : String) (d : Declaration) (name : String) :
    name ∈ (r.insert own d).2.names ↔ (own = name ∧ d.Fits) ∨ name ∈ r.names := by
  obtain ⟨entry, gives, done⟩ | ⟨message, refused, failed⟩ := insert_cases r own d
  · rw [done, names, Dictionary.mem_keys_insert]
    simp only [gives.fits, and_true, eq_comm (a := name), names]
  · rw [failed]
    simp only [refused.unfit, and_false, false_or]

/-- What is found behind an insertion: the entry that it gives, or what was found before. -/
theorem get?_insert (r : Registry) (own : String) (d : Declaration) (name : String)
    (entry : Entry) :
    (r.insert own d).2.get? name = some entry ↔
      (own = name ∧ entry.Gives own d) ∨ (¬(own = name ∧ d.Fits) ∧ r.get? name = some entry) := by
  obtain ⟨made, gives, done⟩ | ⟨message, refused, failed⟩ := insert_cases r own d
  · rw [done, get?, Dictionary.get?_insert]
    by_cases same : own = name
    · subst same
      simp only [if_true, Option.some.injEq, true_and, gives.fits, not_true, false_and, or_false]
      exact ⟨fun same => same ▸ gives, fun gives' => gives.unique gives'⟩
    · simp [same, Ne.symm same, get?]
  · rw [failed]
    have never : ¬entry.Gives own d := fun gives => refused.unfit gives.fits
    simp [never, refused.unfit]

/-! ## Histories -/

theorem insertEach_append (r : Registry) (inserts others : List (String × Declaration)) :
    r.insertEach (inserts ++ others) = (r.insertEach inserts).insertEach others := by
  induction inserts generalizing r with
  | nil => rfl
  | cons named rest ih => exact ih _

theorem mem_names_insertEach (r : Registry) (inserts : List (String × Declaration))
    (name : String) :
    name ∈ (r.insertEach inserts).names ↔
      (∃ d, (name, d) ∈ inserts ∧ d.Fits) ∨ name ∈ r.names := by
  induction inserts generalizing r with
  | nil => simp [insertEach]
  | cons named rest ih =>
    obtain ⟨own, d⟩ := named
    rw [insertEach, ih, mem_names_insert]
    simp only [List.mem_cons, Prod.mk.injEq]
    grind

/-- The first insertion of a history is the last sound one if it is sound and none behind it is. -/
theorem lastSound_cons {own name : String} {d d' : Declaration}
    {rest : List (String × Declaration)} :
    LastSound ((own, d) :: rest) name d' ↔
      LastSound rest name d' ∨ (own = name ∧ d = d' ∧ d.Fits ∧
        ∀ later ∈ rest, later.1 = name → ¬later.2.Fits) := by
  constructor
  · rintro ⟨before, behind, split, fits, none_later⟩
    cases before with
    | nil =>
      cases split
      exact .inr ⟨rfl, rfl, fits, none_later⟩
    | cons first before =>
      cases split
      exact .inl ⟨before, behind, rfl, fits, none_later⟩
  · rintro (⟨before, behind, rfl, fits, none_later⟩ | ⟨rfl, rfl, fits, none_later⟩)
    · exact ⟨(own, d) :: before, behind, rfl, fits, none_later⟩
    · exact ⟨[], rest, rfl, fits, none_later⟩

theorem LastSound.fits {inserts : List (String × Declaration)} {name : String} {d : Declaration}
    (last : LastSound inserts name d) : d.Fits := by
  obtain ⟨_, _, _, fits, _⟩ := last
  exact fits

theorem not_lastSound_nil {name : String} {d : Declaration} : ¬LastSound [] name d := by
  rintro ⟨before, behind, split, -⟩
  cases before <;> cases split

/-- What is found after insertions, by induction on them: what was found before stays as long as no
sound entry of its name is added. -/
theorem get?_insertEach (r : Registry) (inserts : List (String × Declaration)) (name : String)
    (entry : Entry) :
    (r.insertEach inserts).get? name = some entry ↔
      (∃ d, LastSound inserts name d ∧ entry.Gives name d) ∨
        ((∀ later ∈ inserts, later.1 = name → ¬later.2.Fits) ∧ r.get? name = some entry) := by
  induction inserts generalizing r with
  | nil => simp [insertEach, not_lastSound_nil]
  | cons named rest ih =>
    obtain ⟨own, d⟩ := named
    have fits : entry.Gives own d → d.Fits := Entry.Gives.fits
    rw [insertEach, ih, get?_insert]
    simp only [lastSound_cons, List.forall_mem_cons]
    grind

/-- The layouts of a name are the sections of its last sound grammar, one by one. -/
theorem section_iff {r : Registry} {inserts : List (String × Declaration)}
    (found : ∀ name entry, r.get? name = some entry ↔
      ∃ d, LastSound inserts name d ∧ entry.Gives name d)
    {choose : Entry → Option Layout} {i : Nat}
    (chosen : ∀ entry : Entry, choose entry = (entry.request :: entry.reply.toList)[i]?)
    (name : String) (l : Layout) :
    (r.get? name).bind choose = some l ↔ ∃ d sections, LastSound inserts name d ∧
      compileSections d.grammar = .ok sections ∧ sections[i]? = some l := by
  simp only [Option.bind_eq_some_iff, found, chosen]
  constructor
  · rintro ⟨entry, ⟨d, last, gives⟩, l_eq⟩
    exact ⟨d, _, last, gives.layouts, l_eq⟩
  · rintro ⟨d, sections, last, compiled, l_eq⟩
    obtain ⟨entry, gives⟩ := last.fits.gives name
    obtain rfl : sections = entry.request :: entry.reply.toList :=
      Except.ok.inj (compiled.symm.trans gives.layouts)
    exact ⟨entry, ⟨d, last, gives⟩, l_eq⟩

/-! ## Files -/

/-- Entries are added one after the other if all are sound; otherwise the first that is not is
reported. -/
theorem insertAll_cases (r : Registry) (named : List (String × Declaration)) :
    ((∀ entry ∈ named, entry.2.Fits) ∧ r.insertAll named = (.ok (), r.insertEach named)) ∨
      ∃ before name d message behind, named = before ++ (name, d) :: behind ∧
        (∀ entry ∈ before, entry.2.Fits) ∧ d.Refused message ∧
        r.insertAll named = (.error (.config name message), r.insertEach before) := by
  induction named generalizing r with
  | nil => exact .inl ⟨nofun, rfl⟩
  | cons first rest ih =>
    obtain ⟨name, d⟩ := first
    rw [insertAll, insertEach]
    obtain ⟨entry, gives, done⟩ | ⟨message, refused, failed⟩ := insert_cases r name d
    · rw [done]
      rcases ih ⟨r.entries.insert name entry⟩ with ⟨sound, all⟩ |
        ⟨before, name', d', message, behind, rfl, sound, refused, stopped⟩
      · exact .inl ⟨List.forall_mem_cons.mpr ⟨gives.fits, sound⟩, all⟩
      · refine .inr ⟨(name, d) :: before, name', d', message, behind, rfl,
          List.forall_mem_cons.mpr ⟨gives.fits, sound⟩, refused, ?_⟩
        rw [insertEach, done]
        exact stopped
    · refine .inr ⟨[], name, d, message, rest, rfl, nofun, refused, ?_⟩
      rw [failed]
      rfl

/-- In entries that are in order, the first one that is refused has the least name of those. -/
theorem first_least {named before behind : List (String × Declaration)} {name : String}
    {d : Declaration} (ordered : (named.map Prod.fst).Pairwise (· < ·))
    (split : named = before ++ (name, d) :: behind) (sound : ∀ entry ∈ before, entry.2.Fits) :
    ∀ other ∈ named, ¬other.2.Fits → name ≤ other.1 := by
  subst split
  obtain ⟨_, later, _⟩ := List.pairwise_append.mp (List.pairwise_map.mp ordered)
  intro other member unfit
  rcases List.mem_append.mp member with earlier | member
  · exact absurd (sound other earlier) unfit
  · rcases List.mem_cons.mp member with rfl | member
    · exact String.le_refl _
    · exact String.not_lt.mp (String.lt_asymm ((List.pairwise_cons.mp later).1 other member))

/-- A file makes the registry of its entries, or it is refused for the bad entry with the least name. -/
theorem ofText_cases {parse : String → Except String File} {text : String} {file : File}
    (parsed : parse text = .ok file) :
    ((∀ entry ∈ file.entries, entry.2.Fits) ∧
        ofText parse text = .ok (empty.insertEach file.entries)) ∨
      ∃ name d message, (name, d) ∈ file.entries ∧ d.Refused message ∧
        (∀ other ∈ file.entries, ¬other.2.Fits → name ≤ other.1) ∧
        ofText parse text = .error (.config name message) := by
  have made : ofText parse text = changed (empty.insertAll file.entries) := by
    rw [ofText, parsed]
  rw [made]
  rcases insertAll_cases empty file.entries with ⟨sound, all⟩ |
    ⟨before, name, d, message, behind, split, sound, refused, stopped⟩
  · rw [all]
    exact .inl ⟨sound, rfl⟩
  · have member : (name, d) ∈ file.entries := by
      rw [split]
      exact List.mem_append_right before List.mem_cons_self
    rw [stopped]
    exact .inr ⟨name, d, message, member, refused, first_least file.ordered split sound, rfl⟩

/-- Behind any insertions, further ones succeed just where their grammars have one section or two;
others are refused by name and change nothing. The names are those of sound insertions, in order and
each once, and a name stands for what its last sound insertion gives: the entry, and its sections as
the layouts of requests and replies. However texts are parsed, one that cannot be is refused, and a file
makes a registry just where all its entries are sound; otherwise the error names the bad entry with the
least name. -/
theorem insertions_lastSound :
    (∀ inserts : List (String × Declaration),
      let r := empty.insertEach inserts
      (∀ name d,
        (d.Fits ∧ r.insert name d = (.ok (), empty.insertEach (inserts ++ [(name, d)]))) ∨
        (¬d.Fits ∧ ∃ message, d.Refused message ∧
          r.insert name d = (.error (.config name message), r))) ∧
      r.names.Pairwise (· < ·) ∧
      (∀ name, name ∈ r.names ↔ ∃ d, (name, d) ∈ inserts ∧ d.Fits) ∧
      (∀ name entry,
        r.get? name = some entry ↔ ∃ d, LastSound inserts name d ∧ entry.Gives name d) ∧
      (∀ name l, r.request? name = some l ↔ ∃ d sections, LastSound inserts name d ∧
        compileSections d.grammar = .ok sections ∧ sections[0]? = some l) ∧
      ∀ name l, r.reply? name = some l ↔ ∃ d sections, LastSound inserts name d ∧
        compileSections d.grammar = .ok sections ∧ sections[1]? = some l) ∧
    ∀ (parse : String → Except String File) (text : String),
      (∀ message, parse text = .error message →
        ofText parse text = .error (.config "registry" message)) ∧
      ∀ file, parse text = .ok file →
        ((∃ r, ofText parse text = .ok r) ↔ ∀ entry ∈ file.entries, entry.2.Fits) ∧
        (∀ r, ofText parse text = .ok r → r = empty.insertEach file.entries) ∧
        ((∃ entry ∈ file.entries, ¬entry.2.Fits) →
          ∃ name d message, (name, d) ∈ file.entries ∧ d.Refused message ∧
            (∀ other ∈ file.entries, ¬other.2.Fits → name ≤ other.1) ∧
            ofText parse text = .error (.config name message)) := by
  constructor
  · intro inserts r
    have found (name : String) (entry : Entry) :
        r.get? name = some entry ↔ ∃ d, LastSound inserts name d ∧ entry.Gives name d := by
      have never : empty.get? name ≠ some entry := nofun
      simp only [r, get?_insertEach, never, and_false, or_false]
    refine ⟨?_, r.entries.ordered, ?_, found, ?_, section_iff found ?_⟩
    · intro name d
      have next : empty.insertEach (inserts ++ [(name, d)]) = (r.insert name d).2 :=
        insertEach_append ..
      rw [next]
      obtain ⟨entry, gives, done⟩ | ⟨message, refused, failed⟩ := insert_cases r name d
      · exact .inl ⟨gives.fits, by rw [done]⟩
      · exact .inr ⟨refused.unfit, message, refused, failed⟩
    · intro name
      have never : name ∉ empty.names := List.not_mem_nil
      simp only [r, mem_names_insertEach, never, or_false]
    · intro name l
      have chosen (entry : Entry) :
          (some ∘ Entry.request) entry = (entry.request :: entry.reply.toList)[0]? := rfl
      rw [request?, Option.map_eq_bind]
      exact section_iff found chosen name l
    · intro entry
      cases entry.reply <;> rfl
  · intro parse text
    refine ⟨fun message unread => by rw [ofText, unread], ?_⟩
    intro file parsed
    rcases ofText_cases parsed with ⟨sound, made⟩ |
      ⟨name, d, message, member, refused, least, failed⟩
    · rw [made]
      refine ⟨⟨fun _ => sound, fun _ => ⟨_, rfl⟩⟩, ?_, ?_⟩
      · rintro r ⟨⟩
        rfl
      · rintro ⟨entry, member, unfit⟩
        exact absurd (sound entry member) unfit
    · rw [failed]
      refine ⟨⟨?_, fun sound => absurd (sound _ member) refused.unfit⟩, nofun, fun _ => ?_⟩
      · rintro ⟨r, ⟨⟩⟩
      · exact ⟨name, d, message, member, refused, least, rfl⟩

/-- The layout of a section without fields. -/
def blank : Layout := ⟨[⟨[256, 0], .nothing⟩], ""⟩

/-- A grammar for requests and replies. -/
def pair : Declaration := ⟨"---", some "pair"⟩

theorem compileSections_pair : compileSections pair.grammar = .ok [blank, blank] :=
  Layout.compileSections_ok.mpr ⟨by decide, rfl⟩

/-- A grammar with a section too many. -/
def crowd : Declaration := ⟨"--- ---", none⟩

theorem compileSections_crowd : compileSections crowd.grammar = .ok [blank, blank, blank] :=
  Layout.compileSections_ok.mpr ⟨by decide, rfl⟩

theorem crowd_refused {message : String} :
    crowd.Refused message ↔ message = "expected at most 2 grammar sections, found 3" := by
  constructor
  · rintro (failed | ⟨compiled, -⟩)
    · rw [compileSections_crowd] at failed
      cases failed
    · rw [compileSections_crowd] at compiled
      cases compiled
      rfl
  · rintro rfl
    exact .crowded compileSections_crowd (by decide)

/-- A file with two bad entries in front of a sound one. -/
def crowdedFile : File :=
  ⟨[("a", crowd), ("b", crowd), ("c", ⟨"", some "sound"⟩)], by decide⟩

/-- Two of the declarations are arrays. -/
theorem parseToml_crowded :
    parseToml "layouts.c=['','sound',1]\nlayouts.b.grammar='--- ---'\nlayouts.a=['--- ---']" =
      .ok crowdedFile := by
  simp only [parseToml, String.reduceToList]
  rfl

/-- An entry for requests and replies whose replacement is refused, and a file with bad entries. -/
theorem insertions_crowd :
    let r := empty.insertEach [("b", pair), ("b", crowd), ("a", crowd)]
    r.get? "b" = some ⟨"b", some "pair", blank, some blank⟩ ∧ r.request? "b" = some blank ∧
      r.reply? "b" = some blank ∧ (r.insert "b" crowd).2 = r ∧
      ofToml "layouts.c=['','sound',1]\nlayouts.b.grammar='--- ---'\nlayouts.a=['--- ---']" =
        .error (.config "a" "expected at most 2 grammar sections, found 3") := by
  intro r
  obtain ⟨history, file⟩ := insertions_lastSound
  have unfit : ¬crowd.Fits := (crowd_refused.mpr rfl).unfit
  have fits : pair.Fits := ⟨_, compileSections_pair, .inr rfl⟩
  have last : LastSound [("b", pair), ("b", crowd), ("a", crowd)] "b" pair :=
    ⟨[], _, rfl, fits, by simp [unfit]⟩
  obtain ⟨further, -, -, found, requests, replies⟩ :=
    history [("b", pair), ("b", crowd), ("a", crowd)]
  refine ⟨(found _ _).mpr ⟨pair, last, rfl, rfl, compileSections_pair⟩,
    (requests _ _).mpr ⟨pair, _, last, compileSections_pair, rfl⟩,
    (replies _ _).mpr ⟨pair, _, last, compileSections_pair, rfl⟩, ?_, ?_⟩
  · obtain ⟨crowd_fits, -⟩ | ⟨-, message, -, refused⟩ := further "b" crowd
    · exact absurd crowd_fits unfit
    · rw [refused]
  · obtain ⟨-, -, refuses⟩ := (file parseToml _).2 crowdedFile parseToml_crowded
    obtain ⟨name, d, message, member, refused, least, failed⟩ :=
      refuses ⟨("a", crowd), List.mem_cons_self, unfit⟩
    have bound : name ≤ "a" := least ("a", crowd) List.mem_cons_self unfit
    rw [ofToml, failed]
    simp only [crowdedFile, List.mem_cons, Prod.mk.injEq, List.not_mem_nil, or_false] at member
    obtain ⟨rfl, rfl⟩ | ⟨rfl, rfl⟩ | ⟨rfl, rfl⟩ := member
    · rw [crowd_refused.mp refused]
    · exact absurd bound (by decide)
    · exact absurd bound (by decide)

end TagWire.Registry
