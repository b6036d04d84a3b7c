import Mathlib

/-! # Truncation and floating-point rounding of rationals

A floating-point operation is the exact rational result followed by a rounding
that is monotone and leaves every `p`-bit number unchanged. Both the exact
arithmetic and round-to-nearest-even with a `p`-bit significand are such
roundings. The exponent is unbounded, so overflow and subnormal numbers are
outside this description.
-/

namespace N6Samples.Rounding

/-! ## Conversion to an integer -/

/-- The conversion of a real to an integer type: the fraction is dropped. -/
def truncate (q : ℚ) : ℤ := if 0 ≤ q then ⌊q⌋ else ⌈q⌉

theorem truncate_of_nonneg {q : ℚ} (h : 0 ≤ q) : truncate q = ⌊q⌋ := if_pos h

theorem truncate_of_nonpos {q : ℚ} (h : q ≤ 0) : truncate q = ⌈q⌉ := by
  by_cases hq : 0 ≤ q
  · have hzero : q = 0 := le_antisymm h hq
    simp [truncate, hzero]
  · exact if_neg hq

@[simp] theorem truncate_neg (q : ℚ) : truncate (-q) = -truncate q := by
  rcases le_total 0 q with h | h
  · rw [truncate_of_nonneg h, truncate_of_nonpos (by linarith), Int.ceil_neg]
  · rw [truncate_of_nonpos h, truncate_of_nonneg (by linarith), Int.floor_neg]

@[simp] theorem truncate_intCast (n : ℤ) : truncate (n : ℚ) = n := by
  unfold truncate
  split <;> simp

theorem truncate_nonneg {q : ℚ} (h : 0 ≤ q) : 0 ≤ truncate q := by
  rw [truncate_of_nonneg h]
  exact Int.floor_nonneg.mpr h

theorem truncate_nonpos {q : ℚ} (h : q ≤ 0) : truncate q ≤ 0 := by
  have hneg := truncate_nonneg (q := -q) (by linarith)
  rw [truncate_neg] at hneg
  omega

theorem truncate_mono : Monotone truncate := by
  intro a b hab
  rcases le_total 0 a with ha | ha
  · rw [truncate_of_nonneg ha, truncate_of_nonneg (ha.trans hab)]
    exact Int.floor_mono hab
  · rcases le_total 0 b with hb | hb
    · exact (truncate_nonpos ha).trans (truncate_nonneg hb)
    · rw [truncate_of_nonpos ha, truncate_of_nonpos hb]
      exact Int.ceil_mono hab

/-- For a non-negative value the dropped fraction lies in `[0, 1)`. -/
theorem truncate_bounds {q : ℚ} (h : 0 ≤ q) :
    (truncate q : ℚ) ≤ q ∧ q < truncate q + 1 := by
  rw [truncate_of_nonneg h]
  exact ⟨Int.floor_le q, Int.lt_floor_add_one q⟩

theorem truncate_mem_of_mem {q : ℚ} {lo hi : ℤ} (hlo : (lo : ℚ) ≤ q) (hhi : q ≤ hi) :
    lo ≤ truncate q ∧ truncate q ≤ hi := by
  have h1 := truncate_mono hlo
  have h2 := truncate_mono hhi
  rw [truncate_intCast] at h1 h2
  exact ⟨h1, h2⟩

/-! ## Roundings -/

/-- Numbers with a significand of `p` bits. -/
def Representable (p : ℕ) (q : ℚ) : Prop :=
  ∃ m e : ℤ, |m| < 2 ^ p ∧ q = m * (2 : ℚ) ^ e

theorem representable_int {p : ℕ} {n : ℤ} (h : |n| < 2 ^ p) : Representable p n :=
  ⟨n, 0, h, by simp⟩

theorem representable_half {p : ℕ} {n : ℤ} (h : |n| < 2 ^ p) : Representable p ((n : ℚ) / 2) :=
  ⟨n, -1, h, by rw [zpow_neg_one, div_eq_mul_inv]⟩

/-- How a floating-point unit with a `p`-bit significand rounds exact results. -/
structure FloatArith (p : ℕ) where
  round : ℚ → ℚ
  mono : Monotone round
  fix : ∀ q, Representable p q → round q = q

namespace FloatArith

variable {p : ℕ} (F : FloatArith p)

/-- Exact arithmetic. -/
def exact (p : ℕ) : FloatArith p := ⟨id, monotone_id, fun _ _ => rfl⟩

@[simp] theorem exact_round (q : ℚ) : (exact p).round q = q := rfl

theorem round_int {n : ℤ} (h : |n| < 2 ^ p) : F.round n = n := F.fix _ (representable_int h)

/-- Rounding never crosses a representable number. -/
theorem round_mem_of_mem {q lo hi : ℚ} (hlo : Representable p lo) (hhi : Representable p hi)
    (h1 : lo ≤ q) (h2 : q ≤ hi) : lo ≤ F.round q ∧ F.round q ≤ hi := by
  have hl := F.mono h1
  have hh := F.mono h2
  rw [F.fix lo hlo] at hl
  rw [F.fix hi hhi] at hh
  exact ⟨hl, hh⟩

/-- A rounded integer compares to a representable threshold as the integer
itself, provided the next integer above the threshold is representable too. -/
theorem round_int_le_iff {t : ℚ} (ht : Representable p t)
    (hnext : Representable p ((⌊t⌋ + 1 : ℤ) : ℚ)) (n : ℤ) : F.round n ≤ t ↔ (n : ℚ) ≤ t := by
  constructor
  · intro h
    by_contra hn
    have hlt : ⌊t⌋ < n := Int.floor_lt.mpr (not_le.mp hn)
    have hle : ((⌊t⌋ + 1 : ℤ) : ℚ) ≤ n := by exact_mod_cast hlt
    have hround := F.mono hle
    rw [F.fix _ hnext] at hround
    have hfloor := Int.lt_floor_add_one t
    push_cast at hround
    linarith
  · intro h
    have hround := F.mono h
    rwa [F.fix t ht] at hround

end FloatArith

/-! ## Round to nearest, ties to even -/

/-- The nearest integer; of two equally near ones the even one. -/
def nearestInt (q : ℚ) : ℤ :=
  if q - ⌊q⌋ < 1 / 2 then ⌊q⌋
  else if 1 / 2 < q - ⌊q⌋ then ⌊q⌋ + 1
  else if ⌊q⌋ % 2 = 0 then ⌊q⌋ else ⌊q⌋ + 1

@[simp] theorem nearestInt_intCast (n : ℤ) : nearestInt (n : ℚ) = n := by
  simp [nearestInt]

theorem nearestInt_bounds (q : ℚ) : ⌊q⌋ ≤ nearestInt q ∧ nearestInt q ≤ ⌊q⌋ + 1 := by
  unfold nearestInt
  split_ifs <;> omega

theorem nearestInt_mono : Monotone nearestInt := by
  intro a b hab
  have ha := nearestInt_bounds a
  have hb := nearestInt_bounds b
  rcases lt_or_eq_of_le (Int.floor_mono hab) with hlt | heq
  · omega
  · -- One unit interval: the two fractions are ordered as the arguments.
    unfold nearestInt
    rw [heq]
    split_ifs <;> first | omega | (exfalso; linarith)

theorem nearestInt_mem_of_mem {q : ℚ} {lo hi : ℤ} (hlo : (lo : ℚ) ≤ q) (hhi : q ≤ hi) :
    lo ≤ nearestInt q ∧ nearestInt q ≤ hi := by
  have h1 := nearestInt_mono hlo
  have h2 := nearestInt_mono hhi
  rw [nearestInt_intCast] at h1 h2
  exact ⟨h1, h2⟩

/-- The exponent of the unit in the last place of a `p`-bit significand. -/
def ulpExp (p : ℕ) (q : ℚ) : ℤ := Int.log 2 |q| + 1 - p

def roundNearest (p : ℕ) (q : ℚ) : ℚ :=
  nearestInt (q / (2 : ℚ) ^ ulpExp p q) * (2 : ℚ) ^ ulpExp p q

private theorem two_zpow_pos (e : ℤ) : (0 : ℚ) < (2 : ℚ) ^ e :=
  zpow_pos (by norm_num) e

/-- Rounding stays between the multiples of the unit around its argument. -/
theorem roundNearest_mem {p : ℕ} {q : ℚ} {lo hi : ℤ}
    (hlo : lo * (2 : ℚ) ^ ulpExp p q ≤ q) (hhi : q ≤ hi * (2 : ℚ) ^ ulpExp p q) :
    lo * (2 : ℚ) ^ ulpExp p q ≤ roundNearest p q ∧
      roundNearest p q ≤ hi * (2 : ℚ) ^ ulpExp p q := by
  have hpos := two_zpow_pos (ulpExp p q)
  have hmem := nearestInt_mem_of_mem ((le_div_iff₀ hpos).mpr hlo) ((div_le_iff₀ hpos).mpr hhi)
  unfold roundNearest
  constructor
  · exact mul_le_mul_of_nonneg_right (by exact_mod_cast hmem.1) hpos.le
  · exact mul_le_mul_of_nonneg_right (by exact_mod_cast hmem.2) hpos.le

@[simp] theorem roundNearest_zero (p : ℕ) : roundNearest p 0 = 0 := by
  simp [roundNearest, nearestInt]

theorem roundNearest_nonneg {p : ℕ} {q : ℚ} (h : 0 ≤ q) : 0 ≤ roundNearest p q := by
  have hpos := two_zpow_pos (ulpExp p q)
  have hmono := nearestInt_mono (div_nonneg h hpos.le)
  have hzero : nearestInt (0 : ℚ) = 0 := by simpa using nearestInt_intCast 0
  rw [hzero] at hmono
  exact mul_nonneg (by exact_mod_cast hmono) hpos.le

theorem roundNearest_nonpos {p : ℕ} {q : ℚ} (h : q ≤ 0) : roundNearest p q ≤ 0 := by
  have hpos := two_zpow_pos (ulpExp p q)
  have hmono := nearestInt_mono (div_nonpos_of_nonpos_of_nonneg h hpos.le)
  have hzero : nearestInt (0 : ℚ) = 0 := by simpa using nearestInt_intCast 0
  rw [hzero] at hmono
  exact mul_nonpos_of_nonpos_of_nonneg (by exact_mod_cast hmono) hpos.le

private theorem pow_mul_ulp (p : ℕ) (q : ℚ) :
    ((2 ^ p : ℤ) : ℚ) * (2 : ℚ) ^ ulpExp p q = (2 : ℚ) ^ (Int.log 2 |q| + 1) := by
  rw [ulpExp, zpow_sub₀ (by norm_num), zpow_natCast]
  push_cast
  field_simp

private theorem pow_log_le {q : ℚ} (h : q ≠ 0) : (2 : ℚ) ^ Int.log 2 |q| ≤ |q| := by
  exact_mod_cast Int.zpow_log_le_self (b := 2) (by norm_num) (abs_pos.mpr h)

private theorem lt_pow_log_succ (q : ℚ) : |q| < (2 : ℚ) ^ (Int.log 2 |q| + 1) := by
  exact_mod_cast Int.lt_zpow_succ_log_self (b := 2) (by norm_num) |q|

private theorem pred_pow_mul_ulp {p : ℕ} (hp : 0 < p) (q : ℚ) :
    ((2 ^ (p - 1) : ℤ) : ℚ) * (2 : ℚ) ^ ulpExp p q = (2 : ℚ) ^ Int.log 2 |q| := by
  obtain ⟨k, rfl⟩ : ∃ k, p = k + 1 := ⟨p - 1, by omega⟩
  rw [ulpExp, Nat.add_sub_cancel, show Int.log 2 |q| + 1 - ((k + 1 : ℕ) : ℤ) = Int.log 2 |q| - k by
    push_cast; ring, zpow_sub₀ (by norm_num), zpow_natCast]
  push_cast
  field_simp

private theorem le_pow_mul_ulp (p : ℕ) (q : ℚ) :
    |q| ≤ ((2 ^ p : ℤ) : ℚ) * (2 : ℚ) ^ ulpExp p q := by
  rw [pow_mul_ulp]
  exact (lt_pow_log_succ q).le

private theorem neg_pow_mul_ulp_le (p : ℕ) (q : ℚ) :
    ((-2 ^ p : ℤ) : ℚ) * (2 : ℚ) ^ ulpExp p q ≤ q := by
  have h := (neg_le_neg (le_pow_mul_ulp p q)).trans (neg_abs_le q)
  push_cast at h ⊢
  linarith

/-- Rounding keeps the magnitude below the next power of two. -/
theorem roundNearest_le_pow (p : ℕ) (q : ℚ) :
    roundNearest p q ≤ (2 : ℚ) ^ (Int.log 2 |q| + 1) := by
  rw [← pow_mul_ulp p q]
  exact (roundNearest_mem (neg_pow_mul_ulp_le p q)
    ((le_abs_self q).trans (le_pow_mul_ulp p q))).2

theorem neg_pow_le_roundNearest (p : ℕ) (q : ℚ) :
    -(2 : ℚ) ^ (Int.log 2 |q| + 1) ≤ roundNearest p q := by
  have h := (roundNearest_mem (neg_pow_mul_ulp_le p q)
    ((le_abs_self q).trans (le_pow_mul_ulp p q))).1
  rw [← pow_mul_ulp p q]
  push_cast at h ⊢
  linarith

/-- Rounding keeps the magnitude at or above the power of two below it. -/
theorem pow_le_roundNearest {p : ℕ} (hp : 0 < p) {q : ℚ} (h : 0 < q) :
    (2 : ℚ) ^ Int.log 2 |q| ≤ roundNearest p q := by
  have hlow := pow_log_le h.ne'
  rw [← pred_pow_mul_ulp hp q, abs_of_pos h] at hlow
  rw [← pred_pow_mul_ulp hp q]
  exact (roundNearest_mem hlow ((le_abs_self q).trans (le_pow_mul_ulp p q))).1

theorem roundNearest_le_neg_pow {p : ℕ} (hp : 0 < p) {q : ℚ} (h : q < 0) :
    roundNearest p q ≤ -(2 : ℚ) ^ Int.log 2 |q| := by
  have hlow := pow_log_le h.ne
  rw [← pred_pow_mul_ulp hp q, abs_of_neg h] at hlow
  have hhi : q ≤ ((-2 ^ (p - 1) : ℤ) : ℚ) * (2 : ℚ) ^ ulpExp p q := by
    push_cast at hlow ⊢
    linarith
  have hround := (roundNearest_mem (neg_pow_mul_ulp_le p q) hhi).2
  rw [← pred_pow_mul_ulp hp q]
  push_cast at hround ⊢
  linarith

private theorem pow_log_succ_le {a b : ℚ} (h : Int.log 2 a < Int.log 2 b) :
    (2 : ℚ) ^ (Int.log 2 a + 1) ≤ (2 : ℚ) ^ Int.log 2 b :=
  zpow_le_zpow_right₀ (by norm_num) (by omega)

private theorem roundNearest_mono_of_log_eq {p : ℕ} {a b : ℚ} (hab : a ≤ b)
    (hlog : Int.log 2 |a| = Int.log 2 |b|) : roundNearest p a ≤ roundNearest p b := by
  have hulp : ulpExp p a = ulpExp p b := by rw [ulpExp, ulpExp, hlog]
  have hpos := two_zpow_pos (ulpExp p b)
  unfold roundNearest
  rw [hulp]
  have hmono := nearestInt_mono (div_le_div_of_nonneg_right hab hpos.le)
  exact mul_le_mul_of_nonneg_right (by exact_mod_cast hmono) hpos.le

/-- Between different binades the power of two that separates them decides. -/
theorem roundNearest_mono {p : ℕ} (hp : 0 < p) : Monotone (roundNearest p) := by
  intro a b hab
  rcases eq_or_ne (Int.log 2 |a|) (Int.log 2 |b|) with hlog | hlog
  · exact roundNearest_mono_of_log_eq hab hlog
  rcases lt_trichotomy a 0 with ha | rfl | ha
  · rcases le_or_gt 0 b with hb | hb
    · exact (roundNearest_nonpos ha.le).trans (roundNearest_nonneg hb)
    · have habs : |b| ≤ |a| := by rw [abs_of_neg ha, abs_of_neg hb]; linarith
      have hlt := lt_of_le_of_ne (Int.log_mono_right (abs_pos.mpr hb.ne) habs) hlog.symm
      calc roundNearest p a ≤ -(2 : ℚ) ^ Int.log 2 |a| := roundNearest_le_neg_pow hp ha
        _ ≤ -(2 : ℚ) ^ (Int.log 2 |b| + 1) := neg_le_neg (pow_log_succ_le hlt)
        _ ≤ roundNearest p b := neg_pow_le_roundNearest p b
  · rw [roundNearest_zero]
    exact roundNearest_nonneg hab
  · have hb : 0 < b := ha.trans_le hab
    have habs : |a| ≤ |b| := by rwa [abs_of_pos ha, abs_of_pos hb]
    have hlt := lt_of_le_of_ne (Int.log_mono_right (abs_pos.mpr ha.ne') habs) hlog
    calc roundNearest p a ≤ (2 : ℚ) ^ (Int.log 2 |a| + 1) := roundNearest_le_pow p a
      _ ≤ (2 : ℚ) ^ Int.log 2 |b| := pow_log_succ_le hlt
      _ ≤ roundNearest p b := pow_le_roundNearest hp hb

theorem roundNearest_fix {p : ℕ} {q : ℚ} (h : Representable p q) : roundNearest p q = q := by
  rcases h with ⟨m, e, hm, rfl⟩
  rcases eq_or_ne m 0 with rfl | hm0
  · simp
  -- The unit in the last place divides the given `p`-bit form.
  have hle : ulpExp p (m * (2 : ℚ) ^ e) ≤ e := by
    have habs : |(m : ℚ) * (2 : ℚ) ^ e| < ((2 : ℕ) : ℚ) ^ ((p : ℤ) + e) := by
      rw [abs_mul, abs_of_pos (two_zpow_pos e), Nat.cast_ofNat, zpow_add₀ (by norm_num),
        zpow_natCast]
      have hm' : |(m : ℚ)| < 2 ^ p := by exact_mod_cast hm
      exact mul_lt_mul_of_pos_right hm' (two_zpow_pos e)
    have hne : (m : ℚ) * (2 : ℚ) ^ e ≠ 0 :=
      mul_ne_zero (by exact_mod_cast hm0) (two_zpow_pos e).ne'
    have hlog := (Int.lt_zpow_iff_log_lt (by norm_num) (abs_pos.mpr hne)).mp habs
    unfold ulpExp
    omega
  unfold roundNearest
  generalize ulpExp p (m * (2 : ℚ) ^ e) = u at hle ⊢
  obtain ⟨k, rfl⟩ : ∃ k : ℕ, e = u + k := ⟨(e - u).toNat, by omega⟩
  have hpos := two_zpow_pos u
  have hint : (m : ℚ) * (2 : ℚ) ^ (u + (k : ℤ)) / (2 : ℚ) ^ u = ((m * 2 ^ k : ℤ) : ℚ) := by
    rw [zpow_add₀ (by norm_num), zpow_natCast]
    push_cast
    field_simp
  rw [hint, nearestInt_intCast, ← hint, div_mul_cancel₀ _ hpos.ne']

/-- Round-to-nearest-even arithmetic with a `p`-bit significand. -/
def FloatArith.nearestEven {p : ℕ} (hp : 0 < p) : FloatArith p :=
  ⟨roundNearest p, roundNearest_mono hp, fun _ => roundNearest_fix⟩

end N6Samples.Rounding
