import CellMachine.Host.Script
import CellMachine.Proofs.Contents
import CellMachine.Proofs.Runs
import Mathlib.Data.Rat.Floor

/-!
# Shifts and divisions

A cell has 32 bits, but what the machine computes with it is arithmetic of integers, and wraps
around only where a result does not fit. This file says so of the two operations that are not plain
sums or products: a shift is a product or a rounded quotient by a power of two, and a division
truncates. What the instructions do to the stack is read off its contents.
-/

namespace CellMachine

/-! ## Shifts -/

namespace Cell

variable {n count : Cell}

/-- Within the width of a cell, a count is the number of places that the bits are moved. -/
theorem toNat_smod_width (hlow : 0 ≤ count.toInt) (hhigh : count.toInt < 32) :
    (count.toBitVec.smod 32).toNat = count.toInt.toNat := by
  have hplaces : (count.toBitVec.smod 32).toInt = count.toInt := by
    rw [BitVec.toInt_smod, Int32.toInt_toBitVec]
    exact Int.fmod_eq_of_lt hlow hhigh
  have hnat := BitVec.toInt_eq_toNat_cond (count.toBitVec.smod 32)
  split at hnat
  · omega
  · omega

/-- Within the width of a cell, bits that move right divide, and the quotient is rounded down. -/
theorem toInt_shiftRight (hlow : 0 ≤ count.toInt) (hhigh : count.toInt < 32) :
    (n >>> count).toInt = n.toInt / 2 ^ count.toInt.toNat := by
  rw [← Int32.toInt_toBitVec, Int32.toBitVec_shiftRight, BitVec.toInt_sshiftRight',
    toNat_smod_width hlow hhigh, Int32.toInt_toBitVec, Int.shiftRight_eq_div_pow]
  push_cast
  rfl

/-- Within the width of a cell, bits that move left multiply, and what does not fit wraps around. -/
theorem toInt_shiftLeft (hlow : 0 ≤ count.toInt) (hhigh : count.toInt < 32) :
    (n <<< count).toInt = (n.toInt * 2 ^ count.toInt.toNat).bmod (2 ^ 32) := by
  rw [← Int32.toInt_toBitVec, Int32.toBitVec_shiftLeft, BitVec.shiftLeft_eq',
    BitVec.toInt_shiftLeft, toNat_smod_width hlow hhigh, Nat.shiftLeft_eq, ← Int32.toInt_toBitVec n,
    BitVec.toInt_eq_toNat_bmod n.toBitVec, Int.bmod_mul_bmod]
  push_cast
  rfl

/-- A number of at most 31 bits, divided by a larger power of two and rounded down, leaves only its
sign. -/
theorem toInt_div_of_width_le {places : Nat} (hplaces : 32 ≤ places) :
    n.toInt / 2 ^ places = if n.toInt < 0 then -1 else 0 := by
  have hlow := n.le_toInt
  have hhigh := n.toInt_lt
  have hpower : (2 : Int) ^ 32 ≤ 2 ^ places := pow_le_pow_right₀ (by omega) hplaces
  split
  · apply Int.ediv_eq_neg_one_of_neg_of_le
    · assumption
    · omega
  · exact Int.ediv_eq_zero_of_lt (by omega) (by omega)

/-- To move bits is to multiply or to divide by a power of two, for all counts. -/
theorem toInt_shift (n count : Cell) :
    (shift n count).toInt =
      if 0 ≤ count.toInt then n.toInt / 2 ^ count.toInt.toNat
      else (n.toInt * 2 ^ (-count.toInt).toNat).bmod (2 ^ 32) := by
  unfold shift
  by_cases hneg : count < 0
  · have hsign : count.toInt < 0 := Int32.lt_iff_toInt_lt.mp hneg
    rw [if_pos hneg, if_neg (show ¬0 ≤ count.toInt by omega)]
    by_cases hfar : count ≤ -32
    · -- Every bit is moved out, and the product is a multiple of the modulus.
      have hplaces : count.toInt ≤ -32 := Int32.le_iff_toInt_le.mp hfar
      obtain ⟨more, hmore⟩ : ∃ more, (-count.toInt).toNat = more + 32 :=
        ⟨(-count.toInt).toNat - 32, by omega⟩
      rw [if_pos hfar, hmore, pow_add, ← mul_assoc]
      exact (Int.mul_bmod_left _ _).symm
    · have hplaces : ¬count.toInt ≤ -32 := fun h => hfar (Int32.le_iff_toInt_le.mpr h)
      have hopposite : (-count).toInt = -count.toInt := by
        rw [Int32.toInt_neg]
        exact Int.bmod_eq_of_le (by omega) (by omega)
      rw [if_neg hfar, toInt_shiftLeft (by omega) (by omega), hopposite]
  · have hsign : ¬count.toInt < 0 := fun h => hneg (Int32.lt_iff_toInt_lt.mpr h)
    rw [if_neg hneg, if_pos (show 0 ≤ count.toInt by omega)]
    by_cases hfar : 32 ≤ count
    · have hplaces : 32 ≤ count.toInt := Int32.le_iff_toInt_le.mp hfar
      have hflag : n < 0 ↔ n.toInt < 0 := Int32.lt_iff_toInt_lt
      rw [if_pos hfar, toInt_div_of_width_le (by omega), ofFlag]
      simp only [decide_eq_true_eq, hflag]
      split <;> rfl
    · have hplaces : ¬32 ≤ count.toInt := fun h => hfar (Int32.le_iff_toInt_le.mpr h)
      rw [if_neg hfar, toInt_shiftRight (by omega) (by omega)]

end Cell

/-! ## Division -/

/-- A quotient and a remainder of truncated division: the quotient is rounded toward zero, so that
the remainder has the sign of what is divided. -/
structure Truncates (dividend divisor quotient remainder : Int) : Prop where
  total : dividend = quotient * divisor + remainder
  small : |remainder| < |divisor|
  sign : remainder = 0 ∨ remainder.sign = dividend.sign

namespace Truncates

variable {a b q r q' r' : Int}

theorem tdiv (ha : a ≠ 0) : Truncates b a (b.tdiv a) (b.tmod a) where
  total := (Int.tdiv_mul_add_tmod b a).symm
  small := by
    rw [Int.abs_eq_natAbs, Int.abs_eq_natAbs, Int.natAbs_tmod]
    exact_mod_cast Nat.mod_lt _ (Int.natAbs_pos.mpr ha)
  sign := by
    rw [Int.sign_tmod]
    by_cases hdvd : a ∣ b
    · exact .inl (Int.tmod_eq_zero_of_dvd hdvd)
    · exact .inr (if_neg hdvd)

/-- There is only one quotient and one remainder. -/
theorem eq_tdiv (ha : a ≠ 0) (h : Truncates b a q r) : q = b.tdiv a ∧ r = b.tmod a := by
  have hsum : r + a * q = b := by
    rw [h.total]
    ring
  have hsmall := abs_lt.mp h.small
  rw [Int.abs_eq_natAbs] at hsmall
  rcases Int.le_total 0 b with hb | hb
  · have hr : 0 ≤ r := by
      rcases h.sign with hzero | hsign
      · omega
      · rw [← Int.sign_nonneg_iff, hsign, Int.sign_nonneg_iff]
        exact hb
    obtain ⟨hq, hr⟩ := (Int.tdiv_tmod_unique hb ha).mpr ⟨hsum, hr, hsmall.2⟩
    exact ⟨hq.symm, hr.symm⟩
  · have hr : r ≤ 0 := by
      rcases h.sign with hzero | hsign
      · omega
      · rw [← Int.sign_nonpos_iff, hsign, Int.sign_nonpos_iff]
        exact hb
    obtain ⟨hq, hr⟩ := (Int.tdiv_tmod_unique' hb ha).mpr ⟨hsum, hsmall.1, hr⟩
    exact ⟨hq.symm, hr.symm⟩

end Truncates

namespace Cell

variable {a b : Cell}

/-- The quotient of two cells fits in a cell, but for one pair. -/
theorem truncates_div (ha : a ≠ 0) (hfits : ¬(b.toInt = -2 ^ 31 ∧ a.toInt = -1)) :
    Truncates b.toInt a.toInt (b / a).toInt (b % a).toInt := by
  have hquotient : (b / a).toInt = b.toInt.tdiv a.toInt := by
    by_cases hmin : b = Int32.minValue
    · apply Int32.toInt_div_of_ne_right
      rintro rfl
      exact hfits ⟨by rw [hmin]; rfl, rfl⟩
    · exact Int32.toInt_div_of_ne_left b a hmin
  have hne : a.toInt ≠ 0 := fun h => ha (Int32.toInt_inj.mp h)
  rw [hquotient, Int32.toInt_mod]
  exact .tdiv hne

/-- The quotient of that pair wraps around to the dividend, and nothing is left over. -/
theorem div_of_overflow (hb : b.toInt = -2 ^ 31) (ha : a.toInt = -1) :
    (b / a).toInt = -2 ^ 31 ∧ (b % a).toInt = 0 := by
  obtain rfl : b = Int32.minValue := Int32.toInt_inj.mp hb
  obtain rfl : a = -1 := Int32.toInt_inj.mp ha
  decide

/-- A product and a sum give the dividend back, whether or not the quotient fits. -/
theorem div_mul_add_mod (a b : Cell) : b / a * a + b % a = b := by
  apply Int32.toInt_inj.mp
  rw [Int32.toInt_add, Int32.toInt_mul, Int32.toInt_div, Int32.toInt_mod, Int.bmod_mul_bmod,
    Int.bmod_add_bmod, Int.tdiv_mul_add_tmod]
  exact Int32.toInt_bmod b

end Cell

/-! ## Instructions on two values -/

namespace Stack

variable {n : Nat} {s : Stack n} {top below : Cell} {rest : List Cell}

/-- What lies on top of a stack and below it, by its contents. -/
theorem Contained.look_of_contents (h : s.Contained)
    (hcontents : s.contents = top :: below :: rest) :
    s.look 0 = top ∧ s.look 1 = below := by
  constructor
  · exact h.look_of_getElem? 0 (by rw [hcontents]; rfl)
  · exact h.look_of_getElem? 1 (by rw [hcontents]; rfl)

end Stack

section Steps

variable {δ : Type} [Host δ] {s : System δ} {top below : Cell} {rest : List Cell}

/-- An operation on two values leaves its result in their place. -/
theorem step_operator {op : Opcode} {f : Cell → Cell → Cell} (hnext : s.machine.next? = some op)
    (hop : op.operator? = some f) (hlow : 1 ≤ s.machine.sp) (hhigh : s.machine.sp ≤ 31)
    (hcontents : s.machine.data.contents = top :: below :: rest) :
    ∃ status s', Session.step s = .ok status s' ∧ s'.machine.sp = s.machine.sp - 1 ∧
      s'.machine.data.contents = f below top :: rest := by
  unfold Machine.sp at hlow hhigh
  have hcontained : s.machine.data.Contained := ⟨by omega, by omega⟩
  obtain ⟨htop, hbelow⟩ := hcontained.look_of_contents hcontents
  have hput : (s.machine.data.put 1 (f below top)).Contained := ⟨hcontained.low, hcontained.high⟩
  have hresult : ((s.machine.data.put 1 (f below top)).put 0 0).lower.contents =
      f below top :: rest := by
    rw [hput.contents_drop (by rw [Stack.top_put]; omega),
      hcontained.contents_put 1 (by omega), hcontents]
    rfl
  have hcombined : Yields (Session.step s)
      (fun _ s' => s'.machine.sp = s.machine.sp - 1 ∧
        s'.machine.data.contents = f below top :: rest) (fun _ _ => False) := by
    rw [Session.yields_step_of_next hnext, Session.execute_operator hop, Session.yields_liftM,
      Action.yields_combine, Machine.data_counted, htop, hbelow]
    exact ⟨fun _ => by omega, fun _ _ => ⟨rfl, hresult⟩, fun _ => by omega⟩
  exact hcombined.exists_ok

/-- A product and a sum that are made one after the other. -/
theorem step_product_sum {third : Cell} (hnext : s.machine.next? = some .mul)
    (hlow : 2 ≤ s.machine.sp) (hhigh : s.machine.sp ≤ 31)
    (hcontents : s.machine.data.contents = top :: below :: third :: rest) :
    ∃ status s', Session.step s = .ok status s' ∧
      s'.machine.data.contents = below * top :: third :: rest ∧
      (s'.machine.next? = some .add → ∃ status' s'', Session.step s' = .ok status' s'' ∧
        s''.machine.data.contents = (third + below * top) :: rest) := by
  obtain ⟨status, s', hstep, hsp, hproduct⟩ :=
    step_operator hnext rfl (by omega) hhigh hcontents
  refine ⟨status, s', hstep, hproduct, fun hnext' => ?_⟩
  obtain ⟨status', s'', hstep', -, hsum⟩ :=
    step_operator hnext' rfl (by omega) (by omega) hproduct
  exact ⟨status', s'', hstep', hsum⟩

/-- A division leaves the remainder in the place of the dividend and the quotient in that of the
divisor. A division by zero leaves both values where they are. -/
theorem yields_step_divmod (hnext : s.machine.next? = some .divmod) (hlow : 1 ≤ s.machine.sp)
    (hhigh : s.machine.sp ≤ 31) (hcontents : s.machine.data.contents = top :: below :: rest) :
    Yields (Session.step s)
      (fun _ s' => top ≠ 0 ∧ s'.machine.sp = s.machine.sp ∧
        s'.machine.data.contents = below / top :: below % top :: rest)
      (fun fault s' => top = 0 ∧ fault = .divisionByZero s.machine.ip ∧
        s'.machine.data = s.machine.data) := by
  unfold Machine.sp at hlow hhigh
  have hcontained : s.machine.data.Contained := ⟨by omega, by omega⟩
  obtain ⟨htop, hbelow⟩ := hcontained.look_of_contents hcontents
  have hput : (s.machine.data.put 0 (below / top)).Contained := ⟨hcontained.low, hcontained.high⟩
  have hresult : ((s.machine.data.put 0 (below / top)).put 1 (below % top)).contents =
      below / top :: below % top :: rest := by
    rw [hput.contents_put 1 (by rw [Stack.top_put]; omega),
      hcontained.contents_put 0 (by omega), hcontents]
    rfl
  rw [Session.yields_step_of_next hnext]
  apply Session.yields_liftM.mpr
  rw [Action.yields_divide, Machine.data_counted, htop, hbelow]
  refine ⟨fun _ => by omega, fun _ _ => ⟨?_, ?_⟩, fun _ => by omega⟩
  · intro hzero
    exact ⟨hzero, rfl, rfl⟩
  · intro hdivisor
    exact ⟨hdivisor, rfl, hresult⟩

/-- A division asks for two values before it looks at the divisor. -/
theorem step_divmod_of_floor (hnext : s.machine.next? = some .divmod) (hsp : s.machine.sp = 0) :
    ∃ s', Session.step s = .error (.stackUnderflow .data s.machine.ip) s' := by
  unfold Machine.sp at hsp
  have hmissed : Yields (Session.step s) (fun _ _ => False)
      (fun fault _ => fault = .stackUnderflow .data s.machine.ip) := by
    rw [Session.yields_step_of_next hnext]
    apply Session.yields_liftM.mpr
    rw [Action.yields_divide]
    simp [hsp]
  obtain ⟨fault, s', hstep, rfl⟩ := hmissed.exists_error
  exact ⟨s', hstep⟩

end Steps

/-- A machine that is about to execute any opcode of the base set on any two values. -/
theorem exists_operands (op : Opcode) (hop : InstructionSet.base.admits op = true)
    (below top : Cell) :
    ∃ s : System Script, s.machine.next? = some op ∧ s.machine.sp = 2 ∧
      s.machine.data.contents = [top, below, 0] := by
  refine ⟨⟨{ Machine.loaded .base [op.code] with
    data := (({} : DataStack).raise.put 0 below).raise.put 0 top }, {}⟩, ?_, rfl, rfl⟩
  exact Machine.next?_loaded rfl hop

/-! ## The two instructions as a whole -/

/-- To move bits is exact arithmetic, for all numbers and all counts. A count that is not negative
divides by a power of two and rounds down; a negative count multiplies by one, and what is left is
the residue that a cell can hold. The instruction leaves exactly that number in the place of the two
that it takes. -/
theorem shifts_are_exact {δ : Type} [Host δ] :
    (∀ n count : Cell,
      (0 ≤ count.toInt →
        (Cell.shift n count).toInt = ⌊(n.toInt : ℚ) / 2 ^ count.toInt.toNat⌋) ∧
      (count.toInt < 0 →
        (Cell.shift n count).toInt = (n.toInt * 2 ^ (-count.toInt).toNat).bmod (2 ^ 32))) ∧
    ∀ (s : System δ) (n count : Cell) (rest : List Cell), s.machine.next? = some .shift →
      1 ≤ s.machine.sp → s.machine.sp ≤ 31 → s.machine.data.contents = count :: n :: rest →
      ∃ status s', Session.step s = .ok status s' ∧ s'.machine.sp = s.machine.sp - 1 ∧
        s'.machine.data.contents = Cell.shift n count :: rest := by
  constructor
  · intro n count
    have hshift := Cell.toInt_shift n count
    constructor
    · intro hcount
      rw [if_pos hcount] at hshift
      have hfloor := Rat.floor_intCast_div_natCast n.toInt (2 ^ count.toInt.toNat)
      push_cast at hfloor
      rw [hshift, hfloor]
    · intro hcount
      rwa [if_neg (by omega)] at hshift
  · intro s n count rest hnext hlow hhigh hcontents
    exact step_operator hnext rfl hlow hhigh hcontents

/-- Minus seven, moved right by one place, is rounded down to minus four, and three that is moved
left by 31 places wraps around. -/
theorem shifts_are_exact_when_rounding :
    (Cell.shift (-7) 1).toInt = ⌊(-7 : ℚ) / 2 ^ 1⌋ ∧
    (Cell.shift 3 (-31)).toInt = (3 * 2 ^ 31 : Int).bmod (2 ^ 32) ∧
    ∃ (s s' : System Script) (status : Status), s.machine.next? = some .shift ∧
      s.machine.data.contents = [1, -7, 0] ∧ Session.step s = .ok status s' ∧
      s'.machine.sp = 1 ∧ s'.machine.data.contents = [-4, 0] := by
  obtain ⟨hnumbers, hsteps⟩ := shifts_are_exact (δ := Script)
  refine ⟨?_, ?_, ?_⟩
  · have hfloor := (hnumbers (-7) 1).1 (by decide)
    simpa using hfloor
  · exact (hnumbers 3 (-31)).2 (by decide)
  · obtain ⟨s, hnext, hsp, hcontents⟩ := exists_operands .shift rfl (-7) 1
    obtain ⟨status, s', hstep, hsp', hcontents'⟩ :=
      hsteps s (-7) 1 [0] hnext (by omega) (by omega) hcontents
    exact ⟨s, s', status, hnext, hcontents, hstep, by omega, hcontents'⟩

/-- A division truncates, for all values. It fails exactly if the divisor is zero, and then it
leaves both values where they are. Otherwise the quotient and the remainder take their places, and
they are the only numbers that are a quotient, rounded toward zero, and a remainder; the one
quotient that does not fit in a cell wraps around. In every case the product of quotient and divisor
and the remainder add up to the dividend in the arithmetic of cells, and so they do when the machine
multiplies and adds them. With the floor alone on the stack there is nothing to divide, whatever the
floor holds. -/
theorem division_truncates {δ : Type} [Host δ] {s : System δ}
    (hnext : s.machine.next? = some .divmod) :
    (∀ (a b : Cell) (rest : List Cell), 1 ≤ s.machine.sp → s.machine.sp ≤ 31 →
      s.machine.data.contents = a :: b :: rest →
      ((∃ fault s', Session.step s = .error fault s') ↔ a = 0) ∧
      (a = 0 → ∃ s', Session.step s = .error (.divisionByZero s.machine.ip) s' ∧
        s'.machine.data = s.machine.data) ∧
      (a ≠ 0 → ∃ status s' q r, Session.step s = .ok status s' ∧
        s'.machine.sp = s.machine.sp ∧ s'.machine.data.contents = q :: r :: rest ∧
        (¬(b.toInt = -2 ^ 31 ∧ a.toInt = -1) →
          Truncates b.toInt a.toInt q.toInt r.toInt ∧
            ∀ q' r', Truncates b.toInt a.toInt q' r' → q' = q.toInt ∧ r' = r.toInt) ∧
        (b.toInt = -2 ^ 31 ∧ a.toInt = -1 → q.toInt = -2 ^ 31 ∧ r.toInt = 0 ∧
          (q.toInt * a.toInt + r.toInt).bmod (2 ^ 32) = b.toInt) ∧
        q * a + r = b ∧
        ∀ (t : System δ) (others : List Cell), t.machine.next? = some .mul →
          2 ≤ t.machine.sp → t.machine.sp ≤ 31 →
          t.machine.data.contents = a :: q :: r :: others →
          ∃ status t', Session.step t = .ok status t' ∧
            (t'.machine.next? = some .add → ∃ status' t'', Session.step t' = .ok status' t'' ∧
              t''.machine.data.contents = b :: others))) ∧
    (s.machine.sp = 0 → ∃ s', Session.step s = .error (.stackUnderflow .data s.machine.ip) s') := by
  refine ⟨?_, step_divmod_of_floor hnext⟩
  intro a b rest hlow hhigh hcontents
  have hstep := yields_step_divmod hnext hlow hhigh hcontents
  cases hresult : Session.step s with
  | error fault s' =>
    obtain ⟨rfl, rfl, hdata⟩ := hstep.of_error hresult
    exact ⟨iff_of_true ⟨_, s', rfl⟩ rfl, fun _ => ⟨s', rfl, hdata⟩, fun hne => absurd rfl hne⟩
  | ok status s' =>
    obtain ⟨ha, hsp, hquotient⟩ := hstep.of_ok hresult
    refine ⟨iff_of_false (by simp) ha, fun hzero => absurd hzero ha, fun _ => ?_⟩
    refine ⟨status, s', b / a, b % a, rfl, hsp, hquotient, ?_, ?_, Cell.div_mul_add_mod a b, ?_⟩
    · intro hfits
      have htruncates := Cell.truncates_div ha hfits
      have hne : a.toInt ≠ 0 := fun h => ha (Int32.toInt_inj.mp h)
      refine ⟨htruncates, fun q' r' hother => ?_⟩
      obtain ⟨hq, hr⟩ := htruncates.eq_tdiv hne
      obtain ⟨hq', hr'⟩ := hother.eq_tdiv hne
      exact ⟨hq'.trans hq.symm, hr'.trans hr.symm⟩
    · rintro ⟨hb, hminus⟩
      obtain ⟨hq, hr⟩ := Cell.div_of_overflow hb hminus
      refine ⟨hq, hr, ?_⟩
      rw [hq, hr, hb, hminus]
      rfl
    · intro t others hmul hlow' hhigh' hoperands
      obtain ⟨status', t', hstep', -, hadd⟩ := step_product_sum hmul hlow' hhigh' hoperands
      rw [Int32.add_comm, Cell.div_mul_add_mod] at hadd
      exact ⟨status', t', hstep', hadd⟩

/-- Minus seven divided by two, the quotient that does not fit, a division by zero, and a division
with only a zero on the floor. -/
theorem division_truncates_in_each_case :
    (∃ (s s' : System Script) (status : Status), s.machine.next? = some .divmod ∧
      s.machine.data.contents = [2, -7, 0] ∧ Session.step s = .ok status s' ∧
      s'.machine.data.contents = [-3, -1, 0]) ∧
    (∃ (s s' : System Script) (status : Status), s.machine.next? = some .divmod ∧
      s.machine.data.contents = [-1, -2147483648, 0] ∧ Session.step s = .ok status s' ∧
      s'.machine.data.contents = [-2147483648, 0, 0]) ∧
    (∃ s s' : System Script, s.machine.next? = some .divmod ∧
      s.machine.data.contents = [0, 5, 0] ∧
      Session.step s = .error (.divisionByZero s.machine.ip) s' ∧
      s'.machine.data.contents = [0, 5, 0]) ∧
    ∃ s s' : System Script, s.machine.next? = some .divmod ∧ s.machine.data.contents = [0] ∧
      Session.step s = .error (.stackUnderflow .data s.machine.ip) s' := by
  refine ⟨?_, ?_, ?_, ?_⟩
  · obtain ⟨s, hnext, hsp, hcontents⟩ := exists_operands .divmod rfl (-7) 2
    obtain ⟨-, -, hdivided⟩ :=
      (division_truncates hnext).1 2 (-7) [0] (by omega) (by omega) hcontents
    obtain ⟨status, s', q, r, hstep, -, hcontents', hfits, -⟩ := hdivided (by decide)
    obtain ⟨hq, hr⟩ := (hfits (by decide)).2 (-3) (-1) ⟨by decide, by decide, by decide⟩
    obtain rfl : q = -3 := Int32.toInt_inj.mp hq.symm
    obtain rfl : r = -1 := Int32.toInt_inj.mp hr.symm
    exact ⟨s, s', status, hnext, hcontents, hstep, hcontents'⟩
  · obtain ⟨s, hnext, hsp, hcontents⟩ := exists_operands .divmod rfl (-2147483648) (-1)
    obtain ⟨-, -, hdivided⟩ :=
      (division_truncates hnext).1 (-1) (-2147483648) [0] (by omega) (by omega) hcontents
    obtain ⟨status, s', q, r, hstep, -, hcontents', -, hwraps, -⟩ := hdivided (by decide)
    obtain ⟨hq, hr, -⟩ := hwraps (by decide)
    obtain rfl : q = -2147483648 := Int32.toInt_inj.mp hq
    obtain rfl : r = 0 := Int32.toInt_inj.mp hr
    exact ⟨s, s', status, hnext, hcontents, hstep, hcontents'⟩
  · obtain ⟨s, hnext, hsp, hcontents⟩ := exists_operands .divmod rfl 5 0
    obtain ⟨-, hfails, -⟩ := (division_truncates hnext).1 0 5 [0] (by omega) (by omega) hcontents
    obtain ⟨s', hstep, hkept⟩ := hfails rfl
    exact ⟨s, s', hnext, hcontents, hstep, by rw [hkept, hcontents]⟩
  · obtain ⟨s, hs⟩ : ∃ s : System Script, s = ⟨.loaded .base [Opcode.divmod.code], {}⟩ := ⟨_, rfl⟩
    have hnext : s.machine.next? = some .divmod := by
      rw [hs]
      exact Machine.next?_loaded rfl rfl
    have hfloor : s.machine.sp = 0 ∧ s.machine.data.contents = [0] := by
      rw [hs]
      exact ⟨rfl, rfl⟩
    obtain ⟨s', hstep⟩ := (division_truncates hnext).2 hfloor.1
    exact ⟨s, s', hnext, hfloor.2, hstep⟩

end CellMachine
