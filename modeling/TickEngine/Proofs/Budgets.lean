/-
  Which rates of ticks have a budget.

  The time of one tick is the reciprocal of the rate.  It is too long for a span
  of time just if the rate is at most `2 ^ -64` (`Config.slowest`), and then
  every run panics.  Reading a configuration refuses only what is no number, so
  it accepts such rates as well.

  * `Config.paces`: what the budget is, for every configuration;
  * `Config.budget_of_lookup`: what reading accepts and refuses, and which of
    the accepted configurations panic.
-/
import TickEngine.Engine.Run
import TickEngine.Proofs.Rounding

namespace TickEngine

open Format (double)

/-! ## Reciprocals -/

namespace Double

variable {x : Double} {units m : Nat}

/-- The words without sign, up to that of infinity. -/
theorem datum_ofBits (h : m ≤ double.infinity) : (ofBits m).datum =
    if m = double.infinity then .infinite false else .finite false (double.unitsOf m) := by
  have hinfinity : double.infinity < double.signWeight := by decide +kernel
  have hsign : double.signWeight < UInt64.size := by decide +kernel
  have hword : (ofBits m).bits.toNat = m := UInt64.toNat_ofNat_of_lt' (by omega)
  rw [datum, hword, Format.decode]
  simp only [Nat.mod_eq_of_lt (Nat.lt_of_le_of_lt h hinfinity), if_neg (Nat.not_lt.2 h),
    decide_eq_false (Nat.not_le.2 (Nat.lt_of_le_of_lt h hinfinity))]

theorem positiveUnits?_eq_some_iff :
    x.positiveUnits? = some units ↔ x.datum = .finite false units ∧ units ≠ 0 := by
  rw [positiveUnits?]
  rcases x.datum with _ | s | ⟨_ | _, n⟩ <;> simp
  constructor
  · rintro ⟨hne, rfl⟩
    exact ⟨rfl, hne⟩
  · rintro ⟨rfl, hne⟩
    exact ⟨hne, rfl⟩

theorem exists_unitsOf (h : x.datum = .finite false units) : ∃ m, units = double.unitsOf m := by
  unfold datum Format.decode at h
  dsimp only at h
  split at h
  · cases h
  split at h
  · cases h
  · exact ⟨_, (Datum.finite.inj h).2.symm⟩

/-- One, in units. -/
def one : Nat := 2 ^ double.unitPlaces

theorem two_pow_unitPlaces : 2 ^ double.unitPlaces = one := by rw [one]

theorem one_shiftLeft_unitPlaces : 1 <<< double.unitPlaces = one := by
  rw [Nat.one_shiftLeft, two_pow_unitPlaces]

theorem one_pos : 0 < one := by
  rw [one]
  exact Nat.two_pow_pos _

theorem datum_one : (ofNat 1).datum = .finite false one := by decide +kernel

/-- The reciprocal of a positive number is one division of units, rounded
    once. -/
theorem datum_one_div (h : x.datum = .finite false units) (hne : units ≠ 0) :
    (ofNat 1 / x).datum =
      if double.roundUnits (one * one) units = double.infinity then .infinite false
      else .finite false (double.unitsOf (double.roundUnits (one * one) units)) := by
  have hone := datum_one
  rw [datum] at h hone
  have hdiv : ofNat 1 / x = ofBits (double.roundUnits (one * one) units) := by
    change ofBits (double.div _ _) = _
    rw [Format.div, hone, h]
    have hnum : one <<< double.unitPlaces = one * one := by
      rw [Nat.shiftLeft_eq, two_pow_unitPlaces]
    simp only [if_neg hne, hnum, Format.withSign, bne_self_eq_false, Bool.false_eq_true, if_false]
  rw [hdiv, datum_ofBits]
  exact min_le_right _ _

end Double

/-! ## Spans -/

namespace Duration

variable {x : Double} {units : Nat}

theorem ofNanos?_eq_none {n : Nat} (h : 2 ^ 64 * nanosPerSecond ≤ n) : ofNanos? n = none :=
  if_neg (Nat.not_lt.2 ((Nat.le_div_iff_mul_le (by decide)).2 h))

theorem exists_ofNanos? {n : Nat} (h : n ≤ (2 ^ 64 - 1) * nanosPerSecond) :
    ∃ d, ofNanos? n = some d := by
  refine ⟨_, if_pos (Nat.lt_of_le_of_lt (Nat.div_le_of_le_mul ?_) (Nat.sub_one_lt (by decide)))⟩
  rwa [Nat.mul_comm]

/-- The longest span is shorter than `2 ^ 64` seconds. -/
theorem ofSeconds?_eq_none (h : x.datum = .finite false units)
    (hlong : 2 ^ 64 * Double.one ≤ units) : ofSeconds? x = none := by
  have hnanos : 2 ^ 64 * nanosPerSecond ≤
      roundHalfEven (units * nanosPerSecond) Double.one := by
    refine le_roundHalfEven Double.one_pos ?_
    rw [Nat.mul_right_comm]
    exact Nat.mul_le_mul_right _ hlong
  rw [ofSeconds?, h]
  simp only [Bool.false_eq_true, false_and, if_false, Double.one_shiftLeft_unitPlaces]
  exact ofNanos?_eq_none hnanos

/-- Every span of a whole number of seconds below `2 ^ 64` is one. -/
theorem exists_ofSeconds? (h : x.datum = .finite false units)
    (hshort : units ≤ (2 ^ 64 - 1) * Double.one) : ∃ d, ofSeconds? x = some d := by
  have hnanos : roundHalfEven (units * nanosPerSecond) Double.one ≤
      (2 ^ 64 - 1) * nanosPerSecond := by
    refine roundHalfEven_le Double.one_pos ?_
    rw [Nat.mul_right_comm]
    exact Nat.mul_le_mul_right _ hshort
  rw [ofSeconds?, h]
  simp only [Bool.false_eq_true, false_and, if_false, Double.one_shiftLeft_unitPlaces]
  exact exists_ofNanos? hnanos

end Duration

/-! ## Slow rates -/

namespace Config

/-- The rate at which a tick lasts `2 ^ 64` seconds, in units. -/
def slowest : Nat := 2 ^ (double.unitPlaces - 64)

theorem slowest_mul : slowest * 2 ^ 64 = Double.one := by
  rw [slowest, Double.one, ← Nat.pow_add, Nat.sub_add_cancel (by decide)]

variable {x : Double} {units : Nat}

/-- The ticks of a slow rate are too long for a span. -/
theorem ofSeconds?_one_div_of_le (h : x.datum = .finite false units) (hne : units ≠ 0)
    (hslow : units ≤ slowest) : Duration.ofSeconds? (.ofNat 1 / x) = none := by
  have hlong : 2 ^ double.fraction * 2 ^ (double.unitPlaces + 64 - double.fraction) =
      2 ^ 64 * Double.one := by
    rw [Double.one, ← Nat.pow_add, ← Nat.pow_add, Nat.add_sub_cancel' (by decide), Nat.add_comm]
  have hquotient : 2 ^ double.fraction * 2 ^ (double.unitPlaces + 64 - double.fraction) * units ≤
      Double.one * Double.one :=
    calc _ = 2 ^ 64 * Double.one * units := by rw [hlong]
      _ ≤ 2 ^ 64 * Double.one * slowest := Nat.mul_le_mul_left _ hslow
      _ = slowest * 2 ^ 64 * Double.one := by ring
      _ = Double.one * Double.one := by rw [slowest_mul]
  have hword := Format.le_roundUnits (Nat.pos_of_ne_zero hne) hquotient
  have hbelow : (double.unitPlaces + 64 - double.fraction + 1) * 2 ^ double.fraction ≤
      double.infinity := by decide +kernel
  rw [min_eq_left hbelow] at hword
  have hdatum := Double.datum_one_div h hne
  split at hdatum
  · rw [Duration.ofSeconds?, hdatum]
  · refine Duration.ofSeconds?_eq_none hdatum ?_
    rw [← hlong]
    exact Format.le_unitsOf hword

/-- The product that decides whether a quotient of one is rounded up to the next
    power of two. -/
theorem two_pow_mul_two_pow_le {F P : Nat} (h : F + 64 ≤ P) :
    2 ^ P * 2 ^ P ≤ (2 ^ (F + 1) - 1) * 2 ^ (P + 63 - F) * ((2 ^ F + 1) * 2 ^ (P - 64 - F)) := by
  obtain ⟨d, rfl⟩ := Nat.exists_eq_add_of_le h
  have hsquare : 2 * 2 ^ F * 2 ^ F ≤ (2 * 2 ^ F - 1) * (2 ^ F + 1) := by
    obtain ⟨b, hb⟩ := Nat.exists_eq_add_of_lt (Nat.two_pow_pos F)
    rw [hb, show 2 * (0 + b + 1) - 1 = 2 * b + 1 by omega]
    nlinarith
  rw [show F + 64 + d + 63 - F = 127 + d by omega, show F + 64 + d - 64 - F = d by omega]
  calc 2 ^ (F + 64 + d) * 2 ^ (F + 64 + d)
      = (2 * 2 ^ F * 2 ^ F) * (2 ^ (127 + d) * 2 ^ d) := by ring
    _ ≤ ((2 * 2 ^ F - 1) * (2 ^ F + 1)) * (2 ^ (127 + d) * 2 ^ d) := Nat.mul_le_mul_right _ hsquare
    _ = _ := by rw [Nat.pow_succ' (n := F)]; ring

/-- The ticks of every faster rate have a span: the reciprocal of the next rate
    is rounded down. -/
theorem exists_ofSeconds?_one_div (h : x.datum = .finite false units) (hfast : slowest < units) :
    ∃ d, Duration.ofSeconds? (.ofNat 1 / x) = some d := by
  have hne : units ≠ 0 := Nat.ne_of_gt (Nat.zero_lt_of_lt hfast)
  have hslow : 2 ^ double.fraction * 2 ^ (double.unitPlaces - 64 - double.fraction) = slowest := by
    rw [slowest, ← Nat.pow_add, Nat.add_sub_cancel' (by decide)]
  have hunits : (2 ^ double.fraction + 1) * 2 ^ (double.unitPlaces - 64 - double.fraction) ≤
      units := by
    obtain ⟨m, rfl⟩ := Double.exists_unitsOf h
    refine Format.lt_unitsOf (Nat.lt_of_not_le fun hm => ?_)
    have hle := Format.unitsOf_le_two_pow hm
    rw [hslow] at hle
    exact Nat.not_le.2 hfast hle
  have hgap : 2 ^ double.unitPlaces * 2 ^ double.unitPlaces ≤ _ :=
    two_pow_mul_two_pow_le (show double.fraction + 64 ≤ double.unitPlaces by decide)
  rw [Double.two_pow_unitPlaces] at hgap
  have hword := Format.roundUnits_lt (Nat.pos_of_ne_zero hne)
    (hgap.trans (Nat.mul_le_mul_left _ hunits))
  have hbelow : (double.unitPlaces + 63 - double.fraction + 2) * 2 ^ double.fraction ≤
      double.infinity := by decide +kernel
  have hdatum := Double.datum_one_div h hne
  rw [if_neg (Nat.ne_of_lt (Nat.lt_of_lt_of_le hword hbelow))] at hdatum
  refine Duration.exists_ofSeconds? hdatum ((Format.unitsOf_le hword).trans ?_)
  have hexponent : double.unitPlaces + 63 - double.fraction = 11 + double.unitPlaces := by decide
  rw [hexponent, Nat.pow_add 2 11, ← Nat.mul_assoc, Double.two_pow_unitPlaces]
  exact Nat.mul_le_mul_right _ (by decide)

/-! ## Budgets -/

variable {c : Config}

theorem budget_of_unpaced (h : c.tickRate.positiveUnits? = none) : c.budget = .ok none := by
  rw [budget, h]

theorem budget_of_slow (h : c.tickRate.positiveUnits? = some units) (hslow : units ≤ slowest) :
    c.budget = .error budgetPanic := by
  obtain ⟨hdatum, hne⟩ := Double.positiveUnits?_eq_some_iff.1 h
  rw [budget, h]
  simp only [ofSeconds?_one_div_of_le hdatum hne hslow]

theorem budget_of_fast (h : c.tickRate.positiveUnits? = some units) (hfast : slowest < units) :
    ∃ d, c.budget = .ok (some d) := by
  obtain ⟨hdatum, -⟩ := Double.positiveUnits?_eq_some_iff.1 h
  obtain ⟨d, hd⟩ := exists_ofSeconds?_one_div hdatum hfast
  rw [budget, h]
  exact ⟨d, by simp only [hd]⟩

/-- What the time of one tick is. -/
structure Paces (c : Config) : Prop where
  /-- Ticks run back to back if the rate is not a finite number above zero. -/
  unpaced : c.budget = .ok none ↔ c.tickRate.positiveUnits? = none
  /-- Ticks of a rate above the slowest one have a time. -/
  paced : (∃ d, c.budget = .ok (some d)) ↔
    ∃ units, c.tickRate.positiveUnits? = some units ∧ slowest < units
  /-- There is no time for the other rates. -/
  panics : c.budget = .error budgetPanic ↔
    ∃ units, c.tickRate.positiveUnits? = some units ∧ units ≤ slowest

theorem paces (c : Config) : c.Paces := by
  cases hrate : c.tickRate.positiveUnits? with
  | none =>
    have hbudget := budget_of_unpaced hrate
    constructor <;> simp [hbudget, hrate]
  | some units =>
    obtain hfast | hslow := Nat.lt_or_ge slowest units
    · obtain ⟨d, hbudget⟩ := budget_of_fast hrate hfast
      constructor <;> simp [hbudget, hrate, hfast]
    · have hbudget := budget_of_slow hrate hslow
      constructor <;> simp [hbudget, hrate, hslow]

theorem eq_of_budget_error {p : Panic} (h : c.budget = .error p) : p = budgetPanic := by
  unfold budget at h
  split at h
  · cases h
  split at h
  · cases h
  · exact (Except.error.inj h).symm

end Config

namespace Engine

variable {σ : Type}

/-- What goes wrong in a tick does not make a run panic. -/
theorem loop_ne_panic (dt : Nat → Double) (fuel : Nat) (count : UInt64) (g : Engine σ)
    (p : Panic) : (loop dt fuel count g).1 ≠ .error (.panic p) := by
  induction fuel generalizing count g with
  | zero => simp [loop]
  | succ fuel ih =>
    rw [loop]
    split
    · simp
    split
    · simp
    split
    · simp
    · exact ih _ _

theorem runTimed_panic_iff (elapsed : Nat → Double) (g : Engine σ) (p : Panic) :
    (g.runTimed elapsed).1 = .error (.panic p) ↔ g.config.budget = .error p := by
  unfold runTimed
  split
  · rename_i p' hbudget
    simp [hbudget]
  · rename_i budget hbudget
    simp [hbudget, loop_ne_panic]

end Engine

/-! ## Reading a configuration -/

namespace Config

variable {lookup : String → Option String} {name : String} {c : Config} {e : ConfigError}

/-- Where the rate of a configuration comes from. -/
inductive RateOf (lookup : String → Option String) : Double → Prop
  /-- No rate is given. -/
  | default : trimmed? lookup tickRateVariable = none → RateOf lookup ({} : Config).tickRate
  /-- Any number is taken. -/
  | read {value : List Char} {raw : String} {literal : Literal} :
      trimmed? lookup tickRateVariable = some (value, raw) → Literal.read? value = some literal →
      literal.toDouble.isNaN = false → RateOf lookup literal.toDouble

/-- The rate that is given is not a number. -/
def RateUnread (lookup : String → Option String) : Prop :=
  ∃ value raw, trimmed? lookup tickRateVariable = some (value, raw) ∧
    ∀ literal, Literal.read? value = some literal → literal.toDouble.isNaN = true

theorem name_of_word?_error (h : word? lookup name = .error e) : e.name = name := by
  unfold word? at h
  split at h
  · cases h
  split at h
  · cases h
  · cases h
    rfl

theorem rateUnread_of_error (h : double? lookup tickRateVariable = .error e) :
    RateUnread lookup := by
  unfold double? at h
  split at h
  · cases h
  rename_i value raw htrimmed
  refine ⟨value, raw, htrimmed, fun literal hread => ?_⟩
  rw [hread] at h
  by_contra hnan
  simp [hnan] at h

theorem rateOf_of_ok {rate : Option Double} (h : double? lookup tickRateVariable = .ok rate) :
    RateOf lookup (rate.getD ({} : Config).tickRate) := by
  unfold double? at h
  split at h
  · rename_i htrimmed
    cases h
    exact .default htrimmed
  rename_i value raw htrimmed
  split at h
  · cases h
  rename_i literal hread
  split at h
  · cases h
  · rename_i hnan
    cases h
    exact .read htrimmed hread (Bool.eq_false_iff.2 hnan)

theorem rateOf_ofLookup (h : ofLookup lookup = .ok c) : RateOf lookup c.tickRate := by
  unfold ofLookup at h
  cases hworkers : word? lookup workersVariable with
  | error e => simp [hworkers, bind, Except.bind] at h
  | ok workers =>
  cases hrate : double? lookup tickRateVariable with
  | error e => simp [hworkers, hrate, bind, Except.bind] at h
  | ok rate =>
  cases hticks : word? lookup maxTicksVariable with
  | error e => simp [hworkers, hrate, hticks, bind, Except.bind] at h
  | ok ticks =>
    simp only [hworkers, hrate, hticks, bind, Except.bind, pure, Except.pure, Except.ok.injEq] at h
    rw [← h]
    exact rateOf_of_ok hrate

theorem rateUnread_ofLookup (h : ofLookup lookup = .error e) (hname : e.name = tickRateVariable) :
    RateUnread lookup := by
  unfold ofLookup at h
  cases hworkers : word? lookup workersVariable with
  | error e' =>
    simp only [hworkers, bind, Except.bind, Except.error.injEq] at h
    rw [← h, name_of_word?_error hworkers] at hname
    exact absurd hname (by decide)
  | ok workers =>
  cases hrate : double? lookup tickRateVariable with
  | error e' => exact rateUnread_of_error hrate
  | ok rate =>
  cases hticks : word? lookup maxTicksVariable with
  | error e' =>
    simp only [hworkers, hrate, hticks, bind, Except.bind, Except.error.injEq] at h
    rw [← h, name_of_word?_error hticks] at hname
    exact absurd hname (by decide)
  | ok ticks => simp [hworkers, hrate, hticks, bind, Except.bind, pure, Except.pure] at h

/-- **A rate is refused only if it is no number, and the accepted rates that are
    positive and at most `2 ^ -64` panic.**  All other accepted rates have a
    budget, or need none. -/
theorem budget_of_lookup (lookup : String → Option String) :
    (∀ c, ofLookup lookup = .ok c → RateOf lookup c.tickRate ∧ c.Paces ∧
      ∀ {σ : Type} (g : Engine σ) (elapsed : Nat → Double), g.config = c →
        ((∃ p, (g.runTimed elapsed).1 = .error (.panic p)) ↔
          ∃ units, c.tickRate.positiveUnits? = some units ∧ units ≤ slowest)) ∧
    ∀ e, ofLookup lookup = .error e → e.name = tickRateVariable → RateUnread lookup := by
  refine ⟨fun c h => ⟨rateOf_ofLookup h, c.paces, fun g elapsed hconfig => ?_⟩,
    fun e => rateUnread_ofLookup⟩
  rw [← c.paces.panics]
  simp only [Engine.runTimed_panic_iff, hconfig]
  constructor
  · rintro ⟨p, hp⟩
    rwa [← eq_of_budget_error hp]
  · exact fun hp => ⟨_, hp⟩

/-- The rate of `2 ^ -64` and the one after it, both accepted. -/
theorem budget_of_lookup_slowest :
    let given (rate : String) (name : String) : Option String :=
      if name = tickRateVariable then some rate else none
    ∃ c d, ofLookup (given "5.421010862427522e-20") = .ok c ∧ c.budget = .error budgetPanic ∧
      ofLookup (given "5.421010862427523e-20") = .ok d ∧ ∃ span, d.budget = .ok (some span) := by
  intro given
  have hc : ofLookup (given "5.421010862427522e-20") =
      .ok { tickRate := ⟨0x3bf0000000000000⟩ } := by decide +kernel
  have hd : ofLookup (given "5.421010862427523e-20") =
      .ok { tickRate := ⟨0x3bf0000000000001⟩ } := by decide +kernel
  obtain ⟨-, hslow, -⟩ := (budget_of_lookup _).1 _ hc
  obtain ⟨-, hfast, -⟩ := (budget_of_lookup _).1 _ hd
  refine ⟨_, _, hc, hslow.panics.2 ⟨slowest, by decide +kernel, le_rfl⟩, hd, hfast.paced.2 ?_⟩
  exact ⟨slowest + 2 ^ 958, by decide +kernel, by decide +kernel⟩

/-- A rate that is accepted and makes every run panic. -/
theorem accepted_rate_panics :
    let lookup (name : String) : Option String :=
      if name = tickRateVariable then some "1e-300" else none
    ∃ c, ofLookup lookup = .ok c ∧ c.budget = .error budgetPanic := by
  intro lookup
  exact ⟨{ tickRate := ⟨0x01a56e1fc2f8f359⟩ }, by decide +kernel, by decide +kernel⟩

end Config

end TickEngine
