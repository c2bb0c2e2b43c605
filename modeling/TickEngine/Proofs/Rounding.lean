/-
  Bounds on what rounding gives.

  Rounding to a whole number, or to a datum of a format, keeps to every bound
  that is itself one of these: `roundHalfEven_le`, `le_roundHalfEven` for whole
  numbers, and `Format.roundUnits_lt`, `Format.le_roundUnits` for the words of a
  format, of which `Format.unitsOf_le`, `Format.le_unitsOf` and
  `Format.lt_unitsOf` say what they stand for.
-/
import Mathlib
import TickEngine.Number.Ieee

namespace TickEngine

/-! ## Whole numbers -/

theorem roundHalfEven_le {num den k : Nat} (hden : 0 < den) (h : num ≤ k * den) :
    roundHalfEven num den ≤ k := by
  have hq : num / den ≤ k := Nat.div_le_of_le_mul (by rwa [Nat.mul_comm])
  have hmod := Nat.div_add_mod num den
  simp only [roundHalfEven]
  split
  · exact hq
  · rename_i hup
    obtain heq | hlt := Nat.eq_or_lt_of_le hq
    · rw [heq, Nat.mul_comm den k] at hmod
      omega
    · exact hlt

theorem le_roundHalfEven {num den k : Nat} (hden : 0 < den) (h : k * den ≤ num) :
    k ≤ roundHalfEven num den := by
  have hq : k ≤ num / den := (Nat.le_div_iff_mul_le hden).2 h
  simp only [roundHalfEven]
  split <;> omega

namespace Format

variable {f : Format} {m k num den : Nat}

/-! ## Words and units -/

/-- The units of a word by the place of its exponent. -/
theorem unitsOf_eq (f : Format) (m : Nat) : f.unitsOf m =
    if m / 2 ^ f.fraction = 0 then m
    else (2 ^ f.fraction + m % 2 ^ f.fraction) * 2 ^ (m / 2 ^ f.fraction - 1) := by
  simp only [unitsOf, Nat.shiftRight_eq_div_pow, Nat.shiftLeft_eq, Nat.one_mul]

theorem unitsOf_le (h : m < (k + 2) * 2 ^ f.fraction) :
    f.unitsOf m ≤ (2 ^ (f.fraction + 1) - 1) * 2 ^ k := by
  have hpos : 0 < 2 ^ f.fraction := Nat.two_pow_pos _
  have hmod : m % 2 ^ f.fraction < 2 ^ f.fraction := Nat.mod_lt _ hpos
  have hfield : m / 2 ^ f.fraction < k + 2 := (Nat.div_lt_iff_lt_mul hpos).2 h
  rw [unitsOf_eq, Nat.pow_succ]
  split
  · rename_i hzero
    have hm : m < 2 ^ f.fraction := (Nat.div_eq_zero_iff_lt hpos).1 hzero
    calc m ≤ (2 ^ f.fraction * 2 - 1) * 1 := by omega
      _ ≤ (2 ^ f.fraction * 2 - 1) * 2 ^ k := Nat.mul_le_mul_left _ Nat.one_le_two_pow
  · exact Nat.mul_le_mul (by omega) (Nat.pow_le_pow_right (by decide) (by omega))

/-- Up to a power of two all is at most that power. -/
theorem unitsOf_le_two_pow (h : m ≤ (k + 1) * 2 ^ f.fraction) :
    f.unitsOf m ≤ 2 ^ f.fraction * 2 ^ k := by
  have hpos : 0 < 2 ^ f.fraction := Nat.two_pow_pos _
  obtain rfl | hlt := Nat.eq_or_lt_of_le h
  · rw [unitsOf_eq, Nat.mul_div_cancel _ hpos, Nat.mul_mod_left, if_neg (Nat.succ_ne_zero k),
      Nat.add_zero, Nat.add_sub_cancel]
  · cases k with
    | zero =>
      rw [Nat.zero_add, Nat.one_mul] at hlt
      rw [unitsOf_eq, if_pos (Nat.div_eq_of_lt hlt), Nat.pow_zero, Nat.mul_one]
      exact hlt.le
    | succ k =>
      calc f.unitsOf m ≤ (2 ^ (f.fraction + 1) - 1) * 2 ^ k := unitsOf_le hlt
        _ ≤ 2 ^ (f.fraction + 1) * 2 ^ k := Nat.mul_le_mul_right _ (Nat.sub_le _ _)
        _ = 2 ^ f.fraction * 2 ^ (k + 1) := by rw [Nat.pow_succ, Nat.pow_succ', Nat.mul_assoc]

theorem le_unitsOf (h : (k + 1) * 2 ^ f.fraction ≤ m) : 2 ^ f.fraction * 2 ^ k ≤ f.unitsOf m := by
  have hpos : 0 < 2 ^ f.fraction := Nat.two_pow_pos _
  have hfield : k + 1 ≤ m / 2 ^ f.fraction := (Nat.le_div_iff_mul_le hpos).2 h
  rw [unitsOf_eq, if_neg (by omega)]
  exact Nat.mul_le_mul (Nat.le_add_right _ _) (Nat.pow_le_pow_right (by decide) (by omega))

/-- After a power of two there is a gap. -/
theorem lt_unitsOf (h : (k + 1) * 2 ^ f.fraction < m) :
    (2 ^ f.fraction + 1) * 2 ^ k ≤ f.unitsOf m := by
  have hpos : 0 < 2 ^ f.fraction := Nat.two_pow_pos _
  have hfield : k + 1 ≤ m / 2 ^ f.fraction := (Nat.le_div_iff_mul_le hpos).2 h.le
  obtain heq | hlt := Nat.eq_or_lt_of_le hfield
  · have hmod := Nat.div_add_mod m (2 ^ f.fraction)
    rw [← heq, Nat.mul_comm] at hmod
    rw [unitsOf_eq, ← heq, if_neg (by omega), Nat.add_sub_cancel]
    exact Nat.mul_le_mul_right _ (by omega)
  · have hnext : (k + 1 + 1) * 2 ^ f.fraction ≤ m := (Nat.le_div_iff_mul_le hpos).1 hlt
    calc (2 ^ f.fraction + 1) * 2 ^ k
        ≤ (2 ^ f.fraction * 2) * 2 ^ k := Nat.mul_le_mul_right _ (by omega)
      _ = 2 ^ f.fraction * 2 ^ (k + 1) := by rw [Nat.mul_assoc, ← Nat.pow_succ']
      _ ≤ f.unitsOf m := le_unitsOf hnext

/-! ## Rounding to a word -/

theorem roundUnits_eq (f : Format) (num den : Nat) : f.roundUnits num den =
    min (roundHalfEven num (den * 2 ^ ((num / den).log2 - f.fraction)) +
      ((num / den).log2 - f.fraction) * 2 ^ f.fraction) f.infinity := by
  simp only [roundUnits, Nat.shiftLeft_eq]

theorem le_roundUnits (hden : 0 < den) (h : 2 ^ f.fraction * 2 ^ k * den ≤ num) :
    min ((k + 1) * 2 ^ f.fraction) f.infinity ≤ f.roundUnits num den := by
  have hq : 2 ^ (f.fraction + k) ≤ num / den := by
    rw [Nat.pow_add]
    exact (Nat.le_div_iff_mul_le hden).2 h
  have hne : num / den ≠ 0 := Nat.ne_of_gt (Nat.lt_of_lt_of_le (Nat.two_pow_pos _) hq)
  have hlog : f.fraction + k ≤ (num / den).log2 := (Nat.le_log2 hne).2 hq
  obtain ⟨shift, hshift⟩ := Nat.exists_eq_add_of_le (Nat.le_of_add_right_le hlog)
  have hk : k ≤ shift := by omega
  rw [roundUnits_eq, hshift, Nat.add_sub_cancel_left]
  refine min_le_min_right _ ?_
  have hself : 2 ^ (f.fraction + shift) ≤ num / den := hshift ▸ Nat.log2_self_le hne
  have hround : 2 ^ f.fraction ≤ roundHalfEven num (den * 2 ^ shift) := by
    refine le_roundHalfEven (Nat.mul_pos hden (Nat.two_pow_pos _)) ?_
    calc 2 ^ f.fraction * (den * 2 ^ shift)
        = 2 ^ (f.fraction + shift) * den := by rw [Nat.pow_add]; ring
      _ ≤ num / den * den := Nat.mul_le_mul_right _ hself
      _ ≤ num := Nat.div_mul_le_self _ _
  calc (k + 1) * 2 ^ f.fraction = 2 ^ f.fraction + k * 2 ^ f.fraction := by ring
    _ ≤ _ := Nat.add_le_add hround (Nat.mul_le_mul_right _ hk)

theorem roundUnits_lt (hden : 0 < den) (h : num ≤ (2 ^ (f.fraction + 1) - 1) * 2 ^ k * den) :
    f.roundUnits num den < (k + 2) * 2 ^ f.fraction := by
  have hpos : 0 < 2 ^ f.fraction := Nat.two_pow_pos _
  have hpow : 2 ^ (f.fraction + 1) = 2 * 2 ^ f.fraction := Nat.pow_succ'
  have hshift : (num / den).log2 - f.fraction ≤ k := by
    by_cases hzero : num / den = 0
    · rw [hzero, Nat.log2_zero, Nat.zero_sub]
      exact Nat.zero_le k
    · have hq : num / den < 2 ^ (f.fraction + 1 + k) := by
        rw [Nat.pow_add]
        refine Nat.lt_of_le_of_lt (Nat.div_le_of_le_mul (by rwa [Nat.mul_comm])) ?_
        exact Nat.mul_lt_mul_of_pos_right (by omega) (Nat.two_pow_pos k)
      have hlog := (Nat.log2_lt hzero).2 hq
      omega
  have hself : num / den < 2 ^ (f.fraction + 1 + ((num / den).log2 - f.fraction)) :=
    Nat.lt_of_lt_of_le Nat.lt_log2_self (Nat.pow_le_pow_right (by decide) (by omega))
  rw [roundUnits_eq]
  generalize (num / den).log2 - f.fraction = shift at hshift hself
  refine Nat.lt_of_le_of_lt (min_le_left _ _) ?_
  have hscaled : 0 < den * 2 ^ shift := Nat.mul_pos hden (Nat.two_pow_pos shift)
  obtain rfl | hlt := Nat.eq_or_lt_of_le hshift
  · have hround : roundHalfEven num (den * 2 ^ shift) ≤ 2 ^ (f.fraction + 1) - 1 := by
      refine roundHalfEven_le hscaled (h.trans_eq ?_)
      ring
    calc _ ≤ (2 ^ (f.fraction + 1) - 1) + shift * 2 ^ f.fraction := Nat.add_le_add_right hround _
      _ < 2 * 2 ^ f.fraction + shift * 2 ^ f.fraction := by omega
      _ = (shift + 2) * 2 ^ f.fraction := by ring
  · -- with a smaller exponent the fraction may be rounded up to the next one
    have hround : roundHalfEven num (den * 2 ^ shift) ≤ 2 ^ (f.fraction + 1) := by
      refine roundHalfEven_le hscaled ?_
      calc num ≤ den * (num / den + 1) := (Nat.lt_mul_div_succ num hden).le
        _ = (num / den + 1) * den := Nat.mul_comm _ _
        _ ≤ 2 ^ (f.fraction + 1 + shift) * den := Nat.mul_le_mul_right _ hself
        _ = 2 ^ (f.fraction + 1) * (den * 2 ^ shift) := by rw [Nat.pow_add]; ring
    calc _ ≤ 2 ^ (f.fraction + 1) + shift * 2 ^ f.fraction := Nat.add_le_add_right hround _
      _ = (shift + 1 + 1) * 2 ^ f.fraction := by rw [hpow]; ring
      _ < (k + 2) * 2 ^ f.fraction := Nat.mul_lt_mul_of_pos_right (by omega) hpos

end Format

end TickEngine
