import Mathlib.Algebra.Group.Nat.Defs
import Mathlib.Data.List.Chain
import Mathlib.Order.Bounds.Basic
import TagWire.Proofs.Properties.Image

/-!
# Alignment of rows

A row is padded to the step by the least power of two up to 512 that does it.

- `Image.Pads`: an alignment that pads a row to the step.
- `Image.roundUp_iff`: rounding up gives the least multiple that is not below the row.
- `Image.rowQuantum?`: the search by doubling, with each number on the way checked.
- `Image.rowQuantum_least`: what the search finds.
-/

namespace TagWire.Image

/-- The multiples of an alignment that are not below a row. -/
def multiples (row : Int64) (alignment : Nat) : Set Int :=
  {m | (alignment : Int) ∣ m ∧ row.toInt ≤ m}

/-- An alignment that pads a row to the step. -/
structure Pads (row step : Int64) (alignment : Nat) : Prop where
  power : ∃ k, 1 ≤ k ∧ k ≤ 9 ∧ alignment = 2 ^ k
  fits : Fits (row.toInt + (alignment - 1))
  least : IsLeast (multiples row alignment) step.toInt

/-- Doubles an alignment while it is at most 256, until it pads a row to the step; then the step
itself is taken. A sum that does not fit 64 bits is passed over, and any other number that does not
fit gives nothing. -/
def double? (row step : Int64) (quantum : Nat) : Option Int64 :=
  if 0 < quantum ∧ quantum ≤ 256 then do
    let doubled ← checked (2 * quantum : Nat)
    let less ← checked (doubled.toInt - 1)
    match checked (row.toInt + less.toInt) with
    | none => double? row step (2 * quantum)
    | some sum =>
      let quotient ← checked (sum.toInt.tdiv doubled.toInt)
      let rounded ← checked (quotient.toInt * doubled.toInt)
      if rounded = step then return doubled else double? row step (2 * quantum)
  else some step
termination_by 512 - quantum

/-- The alignment of a row, none where a number on the way does not fit 64 bits. -/
def rowQuantum? (row step : Int64) : Option Int64 :=
  if step = row then some 1 else double? row step 1

variable {row : Int64} {alignment : Nat}

/-- A quotient rounded down, of a sum that is nearly an alignment more than the row. -/
theorem isLeast_multiples (row : Int64) (positive : 0 < alignment) :
    IsLeast (multiples row alignment)
      ((row.toInt + (alignment - 1)) / alignment * alignment) := by
  have positive : (0 : Int) < alignment := Int.natCast_pos.mpr positive
  have parts := Int.emod_add_ediv_mul (row.toInt + (alignment - 1)) alignment
  have short := Int.emod_lt_of_pos (row.toInt + (alignment - 1)) positive
  refine ⟨⟨Int.dvd_mul_left _ _, by omega⟩, ?_⟩
  rintro m ⟨⟨c, rfl⟩, above⟩
  have quotient : (row.toInt + (alignment - 1)) / alignment ≤ c := by
    apply Int.lt_add_one_iff.mp
    apply Int.ediv_lt_of_lt_mul positive
    rw [Int.add_mul, Int.mul_comm c]
    omega
  calc (row.toInt + (alignment - 1)) / alignment * alignment
      ≤ c * alignment := Int.mul_le_mul_of_nonneg_right quotient (Int.le_of_lt positive)
    _ = alignment * c := Int.mul_comm ..

/-- Rounding up gives the least multiple that is not below the row. -/
theorem roundUp_iff (up : 0 ≤ row.toInt) (positive : 0 < alignment) {i : Int} :
    roundUp row alignment = some i ↔
      Fits (row.toInt + (alignment - 1)) ∧ IsLeast (multiples row alignment) i := by
  have rounded := isLeast_multiples row positive
  have divided : (row.toInt + (alignment - 1)).tdiv alignment =
      (row.toInt + (alignment - 1)) / alignment := Int.tdiv_eq_ediv_of_nonneg (by omega)
  rw [roundUp, Option.map_eq_some_iff]
  constructor
  · rintro ⟨sum, held, rfl⟩
    obtain ⟨fits, sum_eq⟩ := checked_iff.mp held
    rw [sum_eq, divided]
    exact ⟨fits, rounded⟩
  · rintro ⟨fits, least⟩
    refine ⟨_, checked_iff.mpr ⟨fits, toInt_of_fits fits⟩, ?_⟩
    rw [toInt_of_fits fits, divided]
    exact rounded.unique least

/-! ## The search by doubling -/

theorem checked_of_fits {i : Int} (fits : Fits i) : checked i = some (Int64.ofInt i) := if_pos fits

/-- One turn of the search tries twice the alignment, and no number on the way leaves 64 bits. -/
theorem double?_turn (row step : Int64) {quantum : Nat} (positive : 0 < quantum)
    (small : quantum ≤ 256) :
    double? row step quantum =
      if roundUp row (2 * quantum) = some step.toInt then some (Int64.ofInt (2 * quantum : Nat))
      else double? row step (2 * quantum) := by
  have doubled : Fits (2 * quantum : Nat) := ⟨by omega, by omega⟩
  have less : Fits ((2 * quantum : Nat) - 1) := ⟨by omega, by omega⟩
  rw [double?, if_pos ⟨positive, small⟩, roundUp,
    checked_of_fits doubled]
  dsimp only [Option.bind_eq_bind, Option.bind_some]
  rw [toInt_of_fits doubled, checked_of_fits less, Option.bind_some, toInt_of_fits less]
  cases summed : checked (row.toInt + ((2 * quantum : Nat) - 1)) with
  | none => rfl
  | some sum =>
    obtain ⟨quotient, rounded⟩ :=
      fits_tdiv (fits_toInt sum) (Int.natCast_pos.mpr (Nat.mul_pos Nat.two_pos positive))
    dsimp only
    rw [checked_of_fits quotient, Option.bind_some, toInt_of_fits quotient,
      checked_of_fits rounded, Option.bind_some]
    simp only [Option.map_some, Option.some_inj, ← Int64.toInt_inj, toInt_of_fits rounded]
    rfl

/-- The search tries its alignments one after the other. -/
theorem double?_find (row step : Int64) {quantum : Nat} (positive : 0 < quantum)
    {tried : List Nat} (doubling : (quantum :: tried).IsChain fun a b => b = 2 * a)
    (small : ∀ a ∈ (quantum :: tried).dropLast, a ≤ 256)
    (last : 256 < (quantum :: tried).getLast (List.cons_ne_nil _ _)) :
    double? row step quantum =
      some (match tried.find? fun a => roundUp row a = some step.toInt with
        | some alignment => Int64.ofInt alignment
        | none => step) := by
  induction tried generalizing quantum with
  | nil =>
    rw [double?, if_neg fun within => Nat.not_le_of_lt last within.2]
    rfl
  | cons a tried ih =>
    obtain ⟨rfl, behind⟩ := List.isChain_cons_cons.mp doubling
    obtain ⟨first, others⟩ := List.forall_mem_cons.mp small
    rw [double?_turn row step positive first, List.find?_cons]
    by_cases pads : roundUp row (2 * quantum) = some step.toInt
    · simp only [pads, if_true, decide_true]
    · rw [if_neg pads, ih (by omega) behind others last]
      simp only [pads, decide_false]

theorem rowQuantum?_eq (row step : Int64) : rowQuantum? row step = some (rowQuantum row step) := by
  rw [rowQuantum?, rowQuantum]
  split
  · rfl
  · exact double?_find row step Nat.one_pos (by decide) (by decide) (by decide)

/-! ## What is found -/

theorem mem_alignments : alignment ∈ alignments ↔ ∃ k, 1 ≤ k ∧ k ≤ 9 ∧ alignment = 2 ^ k := by
  have powers : alignments = (List.range' 1 9).map (2 ^ ·) := rfl
  rw [powers, List.mem_map]
  constructor
  · rintro ⟨k, member, rfl⟩
    obtain ⟨least, most⟩ := List.mem_range'_1.mp member
    exact ⟨k, least, by omega, rfl⟩
  · rintro ⟨k, least, most, rfl⟩
    exact ⟨k, List.mem_range'_1.mpr ⟨least, by omega⟩, rfl⟩

theorem alignments_pos (tried : alignment ∈ alignments) : 0 < alignment := by
  obtain ⟨k, -, -, rfl⟩ := mem_alignments.mp tried
  exact Nat.two_pow_pos k

theorem pads_iff (up : 0 ≤ row.toInt) {step : Int64} :
    Pads row step alignment ↔ alignment ∈ alignments ∧ roundUp row alignment = some step.toInt := by
  constructor
  · rintro ⟨power, fits, least⟩
    have tried := mem_alignments.mpr power
    exact ⟨tried, (roundUp_iff up (alignments_pos tried)).mpr ⟨fits, least⟩⟩
  · rintro ⟨tried, rounded⟩
    obtain ⟨fits, least⟩ := (roundUp_iff up (alignments_pos tried)).mp rounded
    exact ⟨mem_alignments.mp tried, fits, least⟩

/-- The first alignment that is found is the least one that there is. -/
theorem find_least (up : 0 ≤ row.toInt) {step : Int64}
    (found : (alignments.find? fun a => roundUp row a = some step.toInt) = some alignment) :
    IsLeast {a | Pads row step a} alignment := by
  have increasing : alignments.Pairwise (· < ·) := by decide
  obtain ⟨rounded, before, behind, parts, earlier⟩ := List.find?_eq_some_iff_append.mp found
  have member : alignment ∈ alignments := List.mem_of_find?_eq_some found
  refine ⟨(pads_iff up).mpr ⟨member, of_decide_eq_true rounded⟩, fun a pads => ?_⟩
  obtain ⟨tried, rounded'⟩ := (pads_iff up).mp pads
  rw [parts] at tried increasing
  rcases List.mem_append.mp tried with first | rest
  · simpa [rounded'] using earlier a first
  · rcases List.mem_cons.mp rest with rfl | later
    · exact Nat.le_refl _
    · have ordered := (List.pairwise_cons.mp (List.pairwise_append.mp increasing).2.1).1
      exact Nat.le_of_lt (ordered a later)

/-- The alignment of a row is one where the step is the row. Otherwise it is the least of the powers
of two up to 512 that pad the row to the step, and the step itself where there is none. The search for
it by doubling leaves 64 bits with no number. -/
theorem rowQuantum_least {row : Int64} (up : 0 ≤ row.toInt) (step : Int64) :
    (step = row → rowQuantum row step = 1) ∧
    (step ≠ row →
      ((∃ a, Pads row step a) →
        ∃ a, IsLeast {a | Pads row step a} a ∧ (rowQuantum row step).toInt = a) ∧
      ((¬ ∃ a, Pads row step a) → rowQuantum row step = step)) ∧
    rowQuantum? row step = some (rowQuantum row step) := by
  refine ⟨fun same => if_pos same, fun differs => ?_, rowQuantum?_eq row step⟩
  rw [rowQuantum, if_neg differs]
  cases found : alignments.find? fun a => roundUp row a = some step.toInt with
  | some alignment =>
    have least := find_least up found
    obtain ⟨k, -, most, rfl⟩ := least.1.power
    have bound : 2 ^ k ≤ 512 := Nat.pow_le_pow_right Nat.two_pos most
    refine ⟨fun _ => ⟨2 ^ k, least, ?_⟩, fun none_pads => absurd ⟨2 ^ k, least.1⟩ none_pads⟩
    exact toInt_of_fits ⟨Int.le_trans (by decide) (Int.natCast_nonneg _),
      Int.lt_of_le_of_lt (Int.ofNat_le.mpr bound) (by decide)⟩
  | none =>
    refine ⟨fun ⟨a, pads⟩ => ?_, fun _ => rfl⟩
    obtain ⟨tried, rounded⟩ := (pads_iff up).mp pads
    have other := List.find?_eq_none.mp found a tried
    simp [rounded] at other

/-- A row of nearly as many bytes as 64 bits can count is padded in steps of eight. -/
theorem rowQuantum_eight :
    0 ≤ (9223372036854775793 : Int64).toInt ∧
      IsLeast {a | Pads 9223372036854775793 9223372036854775800 a} 8 ∧
      rowQuantum 9223372036854775793 9223372036854775800 = 8 := by
  have up : 0 ≤ (9223372036854775793 : Int64).toInt := by decide
  have pads : Pads 9223372036854775793 9223372036854775800 8 := (pads_iff up).mpr (by decide)
  obtain ⟨-, padded, -⟩ := rowQuantum_least up 9223372036854775800
  obtain ⟨a, least, quantum⟩ := (padded (by decide)).1 ⟨8, pads⟩
  have found : rowQuantum 9223372036854775793 9223372036854775800 = 8 := by decide
  rw [found] at quantum
  obtain rfl : 8 = a := Int.natCast_inj.mp quantum
  exact ⟨up, least, found⟩

end TagWire.Image
