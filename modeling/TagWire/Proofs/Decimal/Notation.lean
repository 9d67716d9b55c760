import TagWire.Decimal.Notation
import TagWire.Proofs.Decimal.Shortest

/-!
# Decimals, written and read

What is written for a finite number is a numeral with a point or an exponent, and the bits that are
found for the numeral are those of the number.

- `Decimal.Numeral.ofChars?_fraction`, `ofChars?_exponent`: how numerals are read.
- `Decimal.positional_spec`, `exponential_spec`: what is written.
- `Decimal.Style.write_finite`: the number is read back.
-/

namespace TagWire.Decimal

open Binary (Format)

/-- Whether a text consists of digits. -/
def AllDigits (text : List Char) : Prop := ∀ c ∈ text, c.isDigit = true

theorem AllDigits.append {text others : List Char} (first : AllDigits text)
    (further : AllDigits others) : AllDigits (text ++ others) := by
  intro c member
  rcases List.mem_append.mp member with before | behind
  · exact first c before
  · exact further c behind

theorem AllDigits.sublist {text part : List Char} (digits : AllDigits text)
    (within : part.Sublist text) : AllDigits part :=
  fun c member => digits c (within.mem member)

theorem allDigits_digitChars (n : Nat) : AllDigits (digitChars n) :=
  fun _ member => Nat.isDigit_of_mem_toDigits (by decide) (by decide) member

theorem allDigits_zeros (n : Nat) : AllDigits (zeros n) := by
  intro c member
  rw [List.eq_of_mem_replicate member]
  rfl

theorem natOfDigits_digitChars (n : Nat) : natOfDigits (digitChars n) = n :=
  Nat.ofDigitChars_ten_toDigits

theorem natOfDigits_append (text others : List Char) :
    natOfDigits (text ++ others) = 10 ^ others.length * natOfDigits text + natOfDigits others := by
  rw [natOfDigits, Nat.ofDigitChars_append, Nat.ofDigitChars_eq_ofDigitChars_zero]
  rfl

theorem natOfDigits_zeros (n : Nat) : natOfDigits (zeros n) = 0 := by
  rw [natOfDigits, zeros, Nat.ofDigitChars_replicate_zero, Nat.mul_zero]

/-- The digits at the front of a text. -/
theorem splitDigits_append {digits rest : List Char} (all : AllDigits digits)
    (stops : rest.head?.all (fun c => !c.isDigit) = true) :
    splitDigits (digits ++ rest) = (digits, rest) := by
  have none_taken : rest.takeWhile Char.isDigit = [] ∧ rest.dropWhile Char.isDigit = rest := by
    cases rest with
    | nil => exact ⟨rfl, rfl⟩
    | cons c rest =>
      have stop : c.isDigit = false := by simpa using stops
      exact ⟨List.takeWhile_cons_of_neg (by simp [stop]), List.dropWhile_cons_of_neg (by simp [stop])⟩
  rw [splitDigits, List.takeWhile_append_of_pos all, List.dropWhile_append_of_pos all, none_taken.1,
    none_taken.2, List.append_nil]

/-- The sign in front of a number. -/
def signChars (negative : Bool) : List Char := if negative then ['-'] else []

namespace Numeral

variable {negative : Bool} {whole fraction rest : List Char}

/-- The numeral of a sign, some digits, and the rest of a text. -/
def ofRest (negative : Bool) (whole : List Char) : List Char → Option Numeral
  | [] => some ⟨negative, whole, none, none⟩
  | '.' :: rest =>
    let (fraction, rest) := splitDigits rest
    if rest = [] then some ⟨negative, whole, some fraction, none⟩
    else (exponent? rest).map fun e => ⟨negative, whole, some fraction, some e⟩
  | rest => (exponent? rest).map fun e => ⟨negative, whole, none, some e⟩

theorem ofChars?_signed (some_digits : whole ≠ []) (digits : AllDigits whole)
    (stops : rest.head?.all (fun c => !c.isDigit) = true) :
    ofChars? (signChars negative ++ (whole ++ rest)) = ofRest negative whole rest := by
  have split := splitDigits_append digits stops
  cases negative with
  | true =>
    have signed : signChars true ++ (whole ++ rest) = '-' :: (whole ++ rest) := rfl
    rw [signed, ofChars?]
    dsimp only
    rw [split]
    dsimp only
    rw [if_neg some_digits]
    rfl
  | false =>
    have unsigned : signChars false ++ (whole ++ rest) = whole ++ rest := rfl
    rw [unsigned, ofChars?.eq_def]
    split
    rename_i minus body signed
    have plain : minus = false ∧ body = whole ++ rest := by
      split at signed
      · rename_i begun
        obtain ⟨first, others, rfl⟩ := List.exists_cons_of_ne_nil some_digits
        have digit := digits first List.mem_cons_self
        rw [(List.cons.inj begun).1] at digit
        cases digit
      · cases signed
        exact ⟨rfl, rfl⟩
    obtain ⟨rfl, rfl⟩ := plain
    rw [split]
    dsimp only
    rw [if_neg some_digits]
    rfl

/-- Digits alone. -/
theorem ofChars?_whole (some_digits : whole ≠ []) (digits : AllDigits whole) :
    ofChars? (signChars negative ++ whole) = some ⟨negative, whole, none, none⟩ := by
  have read := @ofChars?_signed negative whole [] some_digits digits rfl
  rwa [List.append_nil] at read

/-- Digits with a point between them. -/
theorem ofChars?_fraction (some_digits : whole ≠ []) (digits : AllDigits whole)
    (further : AllDigits fraction) :
    ofChars? (signChars negative ++ (whole ++ '.' :: fraction)) =
      some ⟨negative, whole, some fraction, none⟩ := by
  have split := @splitDigits_append fraction [] further rfl
  rw [List.append_nil] at split
  rw [ofChars?_signed some_digits digits rfl, ofRest, split]
  exact if_pos rfl

/-- Digits with an exponent, and perhaps a point between them. -/
theorem ofChars?_exponent (some_digits : whole ≠ []) (digits : AllDigits whole)
    (further : AllDigits fraction) {e : Int} {shown : List Char}
    (power : exponent? ('e' :: shown) = some e) :
    ofChars? (signChars negative ++
        (whole ++ ((if fraction.isEmpty then [] else '.' :: fraction) ++ 'e' :: shown))) =
      some ⟨negative, whole, if fraction.isEmpty then none else some fraction, some e⟩ := by
  cases empty : fraction.isEmpty with
  | true =>
    rw [if_pos rfl, List.nil_append, ofChars?_signed some_digits digits rfl, ofRest, power]
    · rfl
    · nofun
    · nofun
  | false =>
    have split := @splitDigits_append fraction ('e' :: shown) further rfl
    rw [if_neg (by decide), List.cons_append, ofChars?_signed some_digits digits rfl, ofRest, split]
    dsimp only
    rw [if_neg (List.cons_ne_nil _ _), power]
    rfl

end Numeral

/-- An exponent is read as it is written. -/
theorem exponent?_written {plus : List Char} (sign : plus = [] ∨ plus = ['+']) (e : Int) :
    exponent? ('e' :: ((if e < 0 then ['-'] else plus) ++ digitChars e.natAbs)) = some e := by
  have digits := allDigits_digitChars e.natAbs
  have all : digitChars e.natAbs ≠ [] ∧ (digitChars e.natAbs).all Char.isDigit = true :=
    ⟨Nat.toDigits_ne_nil, List.all_eq_true.mpr digits⟩
  have back := natOfDigits_digitChars e.natAbs
  generalize digitChars e.natAbs = shown at *
  have unsigned {c : Char} (sign : c.isDigit = false) {rest : List Char} : shown ≠ c :: rest := by
    rintro rfl
    have digit := digits c List.mem_cons_self
    rw [sign] at digit
    cases digit
  by_cases negative : e < 0
  · have minus : -(e.natAbs : Int) = e := by omega
    rw [if_pos negative, List.singleton_append, exponent?, if_pos (.inl rfl)]
    dsimp only
    rw [if_pos all, back, if_pos rfl, minus]
  · have same : (e.natAbs : Int) = e := by omega
    rw [if_neg negative]
    rcases sign with rfl | rfl
    · rw [List.nil_append, exponent?, if_pos (.inl rfl)]
      · dsimp only
        rw [if_pos all, back, if_neg (by decide), same]
      · exact fun _ => unsigned rfl
      · exact fun _ => unsigned rfl
    · rw [List.singleton_append, exponent?, if_pos (.inl rfl)]
      dsimp only
      rw [if_pos all, back, if_neg (by decide), same]

/-- What is written positionally has a point, and stands for the decimal. -/
theorem positional_spec (d : Scaled) :
    ∃ whole fraction, positional d = whole ++ '.' :: fraction ∧ whole ≠ [] ∧ AllDigits whole ∧
      AllDigits fraction ∧
      Scaled.value ⟨natOfDigits (whole ++ fraction), -(fraction.length : Int)⟩ = d.value := by
  have digits := allDigits_digitChars d.digits
  have back := natOfDigits_digitChars d.digits
  have some_digits : digitChars d.digits ≠ [] := Nat.toDigits_ne_nil
  unfold positional
  generalize digitChars d.digits = shown at *
  dsimp only
  split
  · rename_i whole
    refine ⟨shown ++ zeros d.power.toNat, ['0'], by simp, by simp [some_digits],
      digits.append (allDigits_zeros _), by rintro c (_ | ⟨_, ⟨⟩⟩); rfl, ?_⟩
    have power : d.power = d.power.toNat := (Int.toNat_of_nonneg whole).symm
    have zero : natOfDigits ['0'] = 0 := rfl
    rw [natOfDigits_append, natOfDigits_append, natOfDigits_zeros, back, zero, Scaled.value,
      Scaled.value]
    generalize d.power.toNat = n at *
    rw [power, zpow_natCast, List.length_singleton, Nat.cast_one, zpow_neg_one]
    have length : (zeros n).length = n := List.length_replicate
    rw [length]
    push_cast
    ring
  · rename_i fraction
    have power : d.power = -((-d.power).toNat : Int) := by omega
    generalize (-d.power).toNat = places at *
    split
    · rename_i inside
      refine ⟨shown.take (shown.length - places), shown.drop (shown.length - places), by simp, ?_,
        digits.sublist (List.take_sublist _ _), digits.sublist (List.drop_sublist _ _), ?_⟩
      · rw [← List.length_pos_iff, List.length_take]
        omega
      · have length : (shown.drop (shown.length - places)).length = places := by
          rw [List.length_drop]
          omega
        rw [List.take_append_drop, back, length, ← power]
    · rename_i before
      refine ⟨['0'], zeros (places - shown.length) ++ shown, by simp, by simp,
        by rintro c (_ | ⟨_, ⟨⟩⟩); rfl, (allDigits_zeros _).append digits, ?_⟩
      have length : (zeros (places - shown.length) ++ shown).length = places := by
        rw [List.length_append, zeros, List.length_replicate]
        omega
      have zero : natOfDigits ['0'] = 0 := rfl
      rw [length, natOfDigits_append, natOfDigits_append, natOfDigits_zeros, back, zero, ← power]
      simp

/-- What is written with an exponent stands for the decimal. -/
theorem exponential_spec {plus : List Char} (sign : plus = [] ∨ plus = ['+']) (d : Scaled) :
    ∃ whole fraction shown e,
      exponential plus d = whole ++ ((if fraction.isEmpty then [] else '.' :: fraction) ++ 'e' :: shown) ∧
      whole ≠ [] ∧ AllDigits whole ∧ AllDigits fraction ∧ exponent? ('e' :: shown) = some e ∧
      Scaled.value ⟨natOfDigits (whole ++ fraction), e - fraction.length⟩ = d.value := by
  have digits := allDigits_digitChars d.digits
  have back := natOfDigits_digitChars d.digits
  have some_digits : digitChars d.digits ≠ [] := Nat.toDigits_ne_nil
  unfold exponential
  generalize digitChars d.digits = shown at *
  obtain ⟨first, fraction, rfl⟩ := List.exists_cons_of_ne_nil some_digits
  refine ⟨[first], fraction, _, d.power + fraction.length, ?_, List.cons_ne_nil _ _,
    digits.sublist (by simp), digits.sublist (List.sublist_cons_self _ _),
    exponent?_written sign _, ?_⟩
  · simp
  · rw [List.singleton_append, back]
    congr 1
    simp

theorem mem_positional {d : Scaled} {c : Char} (member : c ∈ positional d) :
    c.isDigit = true ∨ c = '.' := by
  obtain ⟨whole, fraction, text, -, digits, further, -⟩ := positional_spec d
  rw [text, List.mem_append, List.mem_cons] at member
  rcases member with before | point | behind
  · exact .inl (digits c before)
  · exact .inr point
  · exact .inl (further c behind)

theorem mem_exponential {plus : List Char} {d : Scaled} {c : Char}
    (member : c ∈ exponential plus d) : c.isDigit = true ∨ c ∈ ['.', 'e', '-'] ∨ c ∈ plus := by
  have digits {n : Nat} {part : List Char} (within : part.Sublist (digitChars n))
      (shown : c ∈ part) : c.isDigit = true := allDigits_digitChars n c (within.mem shown)
  unfold exponential at member
  simp only [List.mem_append] at member
  rcases member with (((first | fraction) | marker) | sign) | exponent
  · exact .inl (digits (List.take_sublist _ _) first)
  · split at fraction
    · cases fraction
    · rcases List.mem_cons.mp fraction with rfl | behind
      · exact .inr (.inl (by decide))
      · exact .inl (digits (List.drop_sublist _ _) behind)
  · exact .inr (.inl (by simp [List.mem_singleton.mp marker]))
  · split at sign
    · exact .inr (.inl (by simp [List.mem_singleton.mp sign]))
    · exact .inr (.inr sign)
  · exact .inl (digits (List.Sublist.refl _) exponent)

/-- The ways to write a finite number. -/
theorem Style.write_cases {style : Style} {f : Format} {bits s : Nat} {negative : Bool} {q : Int}
    (parts : Binary.read f bits = .finite negative s q) :
    s = 0 ∧ style.write f bits = signChars negative ++ ['0', '.', '0'] ∨
      0 < s ∧ (style.write f bits = signChars negative ++ positional (shortest f style.tie s q) ∨
        style.write f bits =
          signChars negative ++ exponential style.plus (shortest f style.tie s q)) := by
  have written : style.write f bits = signChars negative ++
      if s = 0 then ['0', '.', '0']
      else
        let d := shortest f style.tie s q
        let first := d.power + ((digitChars d.digits).length - 1 : Nat)
        if style.positionalFrom ≤ first ∧ first < style.positionalUntil then positional d
        else exponential style.plus d := by
    rw [write, parts]
    rfl
  rw [written]
  rcases Nat.eq_zero_or_pos s with rfl | s_pos
  · exact .inl ⟨rfl, rfl⟩
  · refine .inr ⟨s_pos, ?_⟩
    rw [if_neg s_pos.ne']
    dsimp only
    split
    · exact .inl rfl
    · exact .inr rfl

/-- The characters that numbers are written with. -/
theorem Style.mem_write {style : Style} {f : Format} {bits : Nat} {c : Char}
    (member : c ∈ style.write f bits) : c.isDigit = true ∨ c ∈ ['.', 'e', '-'] ∨ c ∈ style.plus ∨
      c ∈ style.nan.toList ∨ c ∈ style.infinity.toList := by
  have signed {negative : Bool} (sign : c ∈ signChars negative) : c ∈ ['.', 'e', '-'] := by
    cases negative with
    | true => exact List.mem_cons_of_mem _ (List.mem_cons_of_mem _ sign)
    | false => cases sign
  cases parts : Binary.read f bits with
  | nan =>
    rw [write, parts] at member
    exact .inr (.inr (.inr (.inl member)))
  | infinite negative =>
    rw [write, parts] at member
    rcases List.mem_append.mp member with sign | word
    · exact .inr (.inl (signed sign))
    · exact .inr (.inr (.inr (.inr word)))
  | finite negative s q =>
    rcases @write_cases style _ _ _ _ _ parts with ⟨-, text⟩ | ⟨-, text | text⟩
    all_goals
      rw [text] at member
      rcases List.mem_append.mp member with sign | digits
      · exact .inr (.inl (signed sign))
    · simp only [List.mem_cons, List.not_mem_nil, or_false] at digits
      rcases digits with rfl | rfl | rfl
      · exact .inl rfl
      · exact .inr (.inl (by decide))
      · exact .inl rfl
    · exact (mem_positional digits).imp_right fun point => .inl (by simp [point])
    · exact (mem_exponential digits).imp_right (Or.imp_right .inl)

theorem Style.write_ne_nil {style : Style} (nan : style.nan.toList ≠ [])
    (infinity : style.infinity.toList ≠ []) (f : Format) (bits : Nat) : style.write f bits ≠ [] := by
  cases parts : Binary.read f bits with
  | nan =>
    rw [write, parts]
    exact nan
  | infinite negative =>
    rw [write, parts]
    exact List.append_ne_nil_of_right_ne_nil _ infinity
  | finite negative s q =>
    rcases @write_cases style _ _ _ _ _ parts with ⟨-, text⟩ | ⟨-, text | text⟩
    all_goals
      rw [text]
      apply List.append_ne_nil_of_right_ne_nil
    · exact List.cons_ne_nil _ _
    · obtain ⟨whole, fraction, text, some_digits, -⟩ := positional_spec (shortest f style.tie s q)
      rw [text]
      exact List.append_ne_nil_of_left_ne_nil some_digits _
    · simp [exponential]

/-- The zeros are written with a point. -/
theorem bits_zero {bits : Nat} {negative : Bool} {q : Int} (bound : bits < 18446744073709551616)
    (parts : Binary.read Binary.double bits = .finite negative 0 q) :
    Numeral.bits Binary.double ⟨negative, ['0'], some ['0'], none⟩ = bits := by
  obtain ⟨bits_eq, -, -, normal, -⟩ := @Binary.of_read Binary.double _ _ _ _ bound parts
  have least : q = Binary.double.lowest := normal.resolve_left (by decide)
  rw [bits_eq, least, sub_self]
  rfl

/-- What is written for a finite float64 is a numeral of its bits, and of no integer. -/
theorem Style.write_finite {style : Style} (sign : style.plus = [] ∨ style.plus = ['+'])
    {bits s : Nat} {negative : Bool} {q : Int} (bound : bits < 18446744073709551616)
    (parts : Binary.read Binary.double bits = .finite negative s q) :
    ∃ n, Numeral.ofChars? (style.write Binary.double bits) = some n ∧ n.int? = none ∧
      n.bits Binary.double = bits := by
  rcases @write_cases style _ _ _ _ _ parts with ⟨rfl, text⟩ | ⟨s_pos, text | text⟩
  all_goals rw [text]
  · exact ⟨_, @Numeral.ofChars?_fraction negative ['0'] ['0'] (by decide) (allDigits_zeros 1)
      (allDigits_zeros 1), rfl, bits_zero bound parts⟩
  · have near := @shortest_near s q Binary.double style.tie s_pos
    generalize shortest Binary.double style.tie s q = d at *
    obtain ⟨whole, fraction, text, some_digits, digits, further, value⟩ := positional_spec d
    rw [text]
    refine ⟨_, Numeral.ofChars?_fraction some_digits digits further, rfl, ?_⟩
    rw [← value] at near
    have found := Numeral.bitsOfScaled_near bound parts s_pos near
    rwa [← zero_sub] at found
  · have near := @shortest_near s q Binary.double style.tie s_pos
    generalize shortest Binary.double style.tie s q = d at *
    obtain ⟨whole, fraction, shown, e, text, some_digits, digits, further, power, value⟩ :=
      exponential_spec sign d
    rw [text]
    refine ⟨_, Numeral.ofChars?_exponent some_digits digits further power, ?_, ?_⟩
    · cases fraction <;> rfl
    · rw [← value] at near
      have found := Numeral.bitsOfScaled_near bound parts s_pos near
      cases fraction with
      | nil => exact found
      | cons c rest => exact found

end TagWire.Decimal
