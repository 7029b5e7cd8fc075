import Mathlib.Data.Rat.Floor
import Mathlib.Algebra.Order.Field.Power

/-! Binary64 rounding of a rational: to nearest, ties to even, with an unbounded exponent. -/

namespace Paygate.RateLimit.Float64

def log2Below : Nat → Nat → Nat
  | 0, _ => 0
  | k + 1, n => if n < 2 then 0 else log2Below k (n / 2) + 1

lemma log2Below_eq {k n : Nat} (h : n ≤ k) : log2Below k n = n.log2 := by
  induction k generalizing n with
  | zero =>
    obtain rfl : n = 0 := by omega
    rw [Nat.log2_zero]
    rfl
  | succ k ih =>
    rw [log2Below, Nat.log2]
    by_cases h2 : n < 2
    · rw [if_pos h2, if_neg (by omega)]
    · rw [if_neg h2, if_pos (by omega), ih (by omega)]

def log2 (x : ℚ) : ℤ :=
  let k : ℤ := (log2Below x.num.natAbs x.num.natAbs : ℤ) - log2Below x.den x.den
  if (2 : ℚ) ^ k ≤ |x| then k else k - 1

lemma two_zpow_pos (e : ℤ) : (0 : ℚ) < 2 ^ e := zpow_pos two_pos e

lemma log2_spec {x : ℚ} (hx : x ≠ 0) : (2 : ℚ) ^ log2 x ≤ |x| ∧ |x| < 2 ^ (log2 x + 1) := by
  set a := x.num.natAbs
  set d := x.den
  have ha : a ≠ 0 := Int.natAbs_ne_zero.2 (Rat.num_ne_zero.2 hx)
  have hdq : (0 : ℚ) < d := by exact_mod_cast x.den_pos
  have habs : |x| = (a : ℚ) / d := by
    rw [Rat.abs_def, Rat.divInt_eq_div, Int.cast_natCast, Int.cast_natCast]
  have ha1 : (2 : ℚ) ^ (a.log2 : ℤ) ≤ a := by
    rw [zpow_natCast]
    exact_mod_cast Nat.log2_self_le ha
  have ha2 : (a : ℚ) < 2 ^ ((a.log2 : ℤ) + 1) := by
    rw [← Nat.cast_succ, zpow_natCast]
    exact_mod_cast Nat.lt_log2_self
  have hd1 : (2 : ℚ) ^ (d.log2 : ℤ) ≤ d := by
    rw [zpow_natCast]
    exact_mod_cast Nat.log2_self_le x.den_nz
  have hd2 : (d : ℚ) < 2 ^ ((d.log2 : ℤ) + 1) := by
    rw [← Nat.cast_succ, zpow_natCast]
    exact_mod_cast Nat.lt_log2_self
  set k : ℤ := (a.log2 : ℤ) - d.log2
  have hlo : (2 : ℚ) ^ (k - 1) < |x| := by
    rw [habs, lt_div_iff₀ hdq]
    calc (2 : ℚ) ^ (k - 1) * d < 2 ^ (k - 1) * 2 ^ ((d.log2 : ℤ) + 1) :=
          mul_lt_mul_of_pos_left hd2 (two_zpow_pos _)
      _ = 2 ^ (a.log2 : ℤ) := by rw [← zpow_add₀ two_ne_zero]; congr 1; ring
      _ ≤ a := ha1
  have hhi : |x| < 2 ^ (k + 1) := by
    rw [habs, div_lt_iff₀ hdq]
    calc (a : ℚ) < 2 ^ ((a.log2 : ℤ) + 1) := ha2
      _ = 2 ^ (k + 1) * 2 ^ (d.log2 : ℤ) := by rw [← zpow_add₀ two_ne_zero]; congr 1; ring
      _ ≤ 2 ^ (k + 1) * d := mul_le_mul_of_nonneg_left hd1 (two_zpow_pos _).le
  simp only [log2, log2Below_eq le_rfl]
  split_ifs with h
  · exact ⟨h, hhi⟩
  · exact ⟨hlo.le, by simpa using not_le.1 h⟩

lemma log2_eq_of_bounds {x : ℚ} {e : ℤ} (h1 : (2 : ℚ) ^ e ≤ |x|) (h2 : |x| < 2 ^ (e + 1)) :
    log2 x = e := by
  have hx : x ≠ 0 := by
    rintro rfl
    exact (two_zpow_pos e).not_le (by simpa using h1)
  obtain ⟨l1, l2⟩ := log2_spec hx
  have := (zpow_lt_zpow_iff_right₀ one_lt_two).1 (h1.trans_lt l2)
  have := (zpow_lt_zpow_iff_right₀ one_lt_two).1 (l1.trans_lt h2)
  omega

lemma log2_le_log2 {x y : ℚ} (hx : x ≠ 0) (h : |x| ≤ |y|) : log2 x ≤ log2 y := by
  have hy : y ≠ 0 := abs_pos.1 ((abs_pos.2 hx).trans_le h)
  by_contra hlt
  have hle : (2 : ℚ) ^ (log2 y + 1) ≤ 2 ^ log2 x :=
    zpow_le_zpow_right₀ one_le_two (by omega)
  exact ((log2_spec hy).2.trans_le (hle.trans ((log2_spec hx).1.trans h))).false

@[simp] lemma log2_neg (x : ℚ) : log2 (-x) = log2 x := by
  simp [log2]

def roundEven (q : ℚ) : ℤ :=
  if q - ⌊q⌋ < 1 / 2 then ⌊q⌋
  else if 1 / 2 < q - ⌊q⌋ then ⌊q⌋ + 1
  else if ⌊q⌋ % 2 = 0 then ⌊q⌋ else ⌊q⌋ + 1

lemma floor_le_roundEven (q : ℚ) : ⌊q⌋ ≤ roundEven q := by
  unfold roundEven
  split_ifs <;> omega

lemma roundEven_le_floor_add_one (q : ℚ) : roundEven q ≤ ⌊q⌋ + 1 := by
  unfold roundEven
  split_ifs <;> omega

@[simp] lemma roundEven_intCast (n : ℤ) : roundEven n = n := by
  simp [roundEven]

@[simp] lemma roundEven_zero : roundEven 0 = 0 := by
  simpa using roundEven_intCast 0

lemma roundEven_mono : Monotone roundEven := by
  intro q r h
  rcases (Int.floor_mono h).lt_or_eq with hlt | heq
  · exact (roundEven_le_floor_add_one q).trans ((Int.add_one_le_iff.2 hlt).trans
      (floor_le_roundEven r))
  · have hf : q - ⌊r⌋ ≤ r - ⌊r⌋ := by linarith
    unfold roundEven
    rw [heq]
    split_ifs <;> first | omega | (exfalso; linarith)

lemma roundEven_le_of_le {q : ℚ} {n : ℤ} (h : q ≤ n) : roundEven q ≤ n :=
  (roundEven_mono h).trans_eq (roundEven_intCast n)

lemma le_roundEven_of_le {q : ℚ} {n : ℤ} (h : (n : ℚ) ≤ q) : n ≤ roundEven q :=
  (roundEven_intCast n).symm.trans_le (roundEven_mono h)

lemma roundEven_neg (q : ℚ) : roundEven (-q) = -roundEven q := by
  by_cases hq : (⌊q⌋ : ℚ) = q
  · rw [← hq, ← Int.cast_neg, roundEven_intCast, roundEven_intCast]
  have hlt : (⌊q⌋ : ℚ) < q := (Int.floor_le q).lt_of_ne hq
  have hceil : ⌈q⌉ = ⌊q⌋ + 1 :=
    Int.ceil_eq_iff.2 ⟨by push_cast; linarith, (Int.lt_floor_add_one q).le.trans (by push_cast; rfl)⟩
  have hfl : ⌊-q⌋ = -⌊q⌋ - 1 := by rw [Int.floor_neg, hceil]; ring
  have hfrac : -q - (⌊-q⌋ : ℚ) = 1 - (q - ⌊q⌋) := by rw [hfl]; push_cast; ring
  unfold roundEven
  rw [hfrac, hfl]
  split_ifs <;> first | omega | (exfalso; linarith)

def ulp (x : ℚ) : ℚ := 2 ^ (log2 x - 52)

/-- The binary64 value nearest `x`, ties to an even significand. -/
def fl (x : ℚ) : ℚ := roundEven (x / ulp x) * ulp x

lemma ulp_pos (x : ℚ) : 0 < ulp x := two_zpow_pos _

@[simp] lemma ulp_neg (x : ℚ) : ulp (-x) = ulp x := by simp [ulp]

lemma abs_div_ulp_lt (x : ℚ) : |x / ulp x| < 2 ^ 53 := by
  rcases eq_or_ne x 0 with rfl | hx
  · norm_num
  rw [abs_div, abs_of_pos (ulp_pos x), div_lt_iff₀ (ulp_pos x), ulp, ← zpow_natCast,
    ← zpow_add₀ two_ne_zero]
  convert (log2_spec hx).2 using 2
  push_cast
  ring

lemma le_abs_div_ulp {x : ℚ} (hx : x ≠ 0) : 2 ^ 52 ≤ |x / ulp x| := by
  rw [abs_div, abs_of_pos (ulp_pos x), le_div_iff₀ (ulp_pos x), ulp, ← zpow_natCast,
    ← zpow_add₀ two_ne_zero]
  convert (log2_spec hx).1 using 2
  push_cast
  ring

lemma abs_roundEven_le {q : ℚ} (h : |q| ≤ 2 ^ 53) : |(roundEven q : ℚ)| ≤ 2 ^ 53 := by
  have h1 := roundEven_le_of_le (n := ((2 ^ 53 : ℕ) : ℤ)) (by push_cast; exact (abs_le.1 h).2)
  have h2 := le_roundEven_of_le (n := -((2 ^ 53 : ℕ) : ℤ)) (q := q)
    (by push_cast; exact (abs_le.1 h).1)
  rw [abs_le]
  constructor <;> [exact_mod_cast h2; exact_mod_cast h1]

@[simp] lemma fl_zero : fl 0 = 0 := by simp [fl]

lemma fl_neg (x : ℚ) : fl (-x) = -fl x := by
  rw [fl, fl, ulp_neg, neg_div, roundEven_neg, Int.cast_neg, neg_mul]

lemma fl_nonneg {x : ℚ} (h : 0 ≤ x) : 0 ≤ fl x :=
  mul_nonneg (by exact_mod_cast le_roundEven_of_le (n := 0) (by
    simpa using div_nonneg h (ulp_pos x).le)) (ulp_pos x).le

lemma fl_nonpos {x : ℚ} (h : x ≤ 0) : fl x ≤ 0 := by
  simpa [fl_neg] using fl_nonneg (neg_nonneg.2 h)

lemma fl_pos {x : ℚ} (h : 0 < x) : 0 < fl x := by
  have h52 := le_abs_div_ulp h.ne'
  rw [abs_of_pos (div_pos h (ulp_pos x))] at h52
  refine mul_pos ?_ (ulp_pos x)
  exact_mod_cast (show (0 : ℤ) < ((2 ^ 52 : ℕ) : ℤ) by norm_num).trans_le
    (le_roundEven_of_le (by push_cast; exact h52))

lemma two_mul_ulp_le {x y : ℚ} (h : log2 x < log2 y) : 2 * ulp x ≤ ulp y := by
  rw [ulp, ulp, ← zpow_one_add₀ two_ne_zero]
  exact zpow_le_zpow_right₀ one_le_two (by omega)

lemma fl_le_fl_of_pos {x y : ℚ} (hx : 0 < x) (h : x ≤ y) : fl x ≤ fl y := by
  have hy := hx.trans_le h
  have hxy : log2 x ≤ log2 y := log2_le_log2 hx.ne' (by rwa [abs_of_pos hx, abs_of_pos hy])
  rcases hxy.lt_or_eq with hlt | heq
  · have hx53 := abs_div_ulp_lt x
    have hy52 := le_abs_div_ulp hy.ne'
    rw [abs_of_pos (div_pos hx (ulp_pos x))] at hx53
    rw [abs_of_pos (div_pos hy (ulp_pos y))] at hy52
    have hux := ulp_pos x
    calc fl x ≤ 2 ^ 53 * ulp x := mul_le_mul_of_nonneg_right
          (by exact_mod_cast roundEven_le_of_le (n := ((2 ^ 53 : ℕ) : ℤ)) (by push_cast; exact hx53.le))
          hux.le
      _ = 2 ^ 52 * (2 * ulp x) := by ring
      _ ≤ 2 ^ 52 * ulp y := mul_le_mul_of_nonneg_left (two_mul_ulp_le hlt) (by norm_num)
      _ ≤ fl y := mul_le_mul_of_nonneg_right
          (by exact_mod_cast le_roundEven_of_le (n := ((2 ^ 52 : ℕ) : ℤ)) (by push_cast; exact hy52))
          (ulp_pos y).le
  · have hu : ulp x = ulp y := by rw [ulp, ulp, heq]
    rw [fl, fl, hu]
    exact mul_le_mul_of_nonneg_right
      (by exact_mod_cast roundEven_mono (div_le_div_of_nonneg_right h (ulp_pos y).le))
      (ulp_pos y).le

lemma fl_mono : Monotone fl := by
  intro x y h
  rcases lt_or_le 0 x with hx | hx
  · exact fl_le_fl_of_pos hx h
  rcases lt_or_le 0 y with hy | hy
  · exact (fl_nonpos hx).trans (fl_nonneg hy.le)
  rcases hy.lt_or_eq with hy | rfl
  · have := fl_le_fl_of_pos (neg_pos.2 hy) (neg_le_neg h)
    rw [fl_neg, fl_neg] at this
    exact neg_le_neg_iff.1 this
  · simpa using fl_nonpos hx

lemma fl_eq_self_of_grid (m e : ℤ) (hm : |(m : ℚ)| ≤ 2 ^ 53) : fl (m * 2 ^ e) = m * 2 ^ e := by
  set x : ℚ := m * 2 ^ e
  rcases eq_or_ne x 0 with hx | hx
  · rw [hx, fl_zero]
  suffices ∃ z : ℤ, x / ulp x = z by
    obtain ⟨z, hz⟩ := this
    rw [fl, hz, roundEven_intCast, ← hz, div_mul_cancel₀ _ (ulp_pos x).ne']
  have habs : |x| = |(m : ℚ)| * 2 ^ e := by
    rw [abs_mul, abs_of_pos (two_zpow_pos e)]
  have hE : log2 x - 52 ≤ e + 1 := by
    have h := (log2_spec hx).1
    have : (2 : ℚ) ^ log2 x ≤ 2 ^ (e + 53) := by
      rw [zpow_add₀ two_ne_zero, mul_comm]
      exact h.trans (habs.trans_le (mul_le_mul_of_nonneg_right (by exact_mod_cast hm)
        (two_zpow_pos e).le))
    have := (zpow_le_zpow_iff_right₀ one_lt_two).1 this
    omega
  rcases (show log2 x - 52 ≤ e ∨ log2 x - 52 = e + 1 by omega) with hle | heq
  · refine ⟨m * 2 ^ (e - (log2 x - 52)).toNat, ?_⟩
    rw [ulp, div_eq_iff (two_zpow_pos _).ne']
    push_cast
    rw [← zpow_natCast, Int.toNat_of_nonneg (by omega), mul_assoc, ← zpow_add₀ two_ne_zero,
      sub_add_cancel]
  · have hq : x / ulp x = m / 2 := by
      rw [ulp, heq, zpow_add₀ two_ne_zero, zpow_one, ← div_div, mul_div_cancel_right₀ _
        (two_zpow_pos e).ne']
    have h52 := le_abs_div_ulp hx
    rw [hq] at h52 ⊢
    have habs2 : |(m : ℚ) / 2| = 2 ^ 52 := le_antisymm (by
      rw [abs_div, abs_two, div_le_iff₀ two_pos]
      linarith) h52
    rcases abs_eq (by norm_num) |>.1 habs2 with h | h
    · exact ⟨2 ^ 52, by rw [h]; norm_num⟩
    · exact ⟨-2 ^ 52, by rw [h]; norm_num⟩

lemma fl_intCast {n : ℤ} (hn : |(n : ℚ)| ≤ 2 ^ 53) : fl n = n := by
  simpa using fl_eq_self_of_grid n 0 hn

@[simp] lemma fl_one : fl 1 = 1 := by
  simpa using fl_intCast (n := 1) (by norm_num)

@[simp] lemma fl_fl (x : ℚ) : fl (fl x) = fl x :=
  fl_eq_self_of_grid _ _ (abs_roundEven_le (abs_div_ulp_lt x).le)

lemma fl_le_fl_of_le {x y : ℚ} (h : x ≤ fl y) : fl x ≤ fl y :=
  (fl_mono h).trans_eq (fl_fl y)

lemma fl_le_fl_of_ge {x y : ℚ} (h : fl y ≤ x) : fl y ≤ fl x :=
  (fl_fl y).symm.trans_le (fl_mono h)

lemma fl_sub_one {r : ℚ} (hr : fl r = r) (h1 : 1 ≤ r) (h2 : r ≤ 2 ^ 53) : fl (r - 1) = r - 1 := by
  obtain ⟨M, hM⟩ : ∃ M : ℤ, r = M * 2 ^ (log2 r - 52) := ⟨_, hr.symm⟩
  have hM53 : |(M : ℚ)| ≤ 2 ^ 53 := by
    have hMq : (M : ℚ) = r / ulp r := (eq_div_iff (ulp_pos r).ne').2 hM.symm
    exact hMq ▸ (abs_div_ulp_lt r).le
  generalize log2 r - 52 = E at hM
  rcases le_or_lt 0 E with hE | hE
  · have hz : r = ((M * 2 ^ E.toNat : ℤ) : ℚ) := by
      rw [hM]
      push_cast
      rw [← zpow_natCast, Int.toNat_of_nonneg hE]
    rw [hz, ← Int.cast_one, ← Int.cast_sub, fl_intCast]
    rw [Int.cast_sub, Int.cast_one, ← hz, abs_le]
    constructor <;> linarith
  · have hone : (1 : ℚ) = ((2 ^ (-E).toNat : ℤ) : ℚ) * 2 ^ E := by
      push_cast
      rw [← zpow_natCast, Int.toNat_of_nonneg (by omega), ← zpow_add₀ two_ne_zero,
        neg_add_cancel, zpow_zero]
    have hMK : r - 1 = ((M - 2 ^ (-E).toNat : ℤ) : ℚ) * 2 ^ E := by
      rw [Int.cast_sub, sub_mul, ← hone, ← hM]
    have hlo : (0 : ℚ) ≤ ((M - 2 ^ (-E).toNat : ℤ) : ℚ) :=
      le_of_mul_le_mul_right (by rw [zero_mul, ← hMK]; linarith) (two_zpow_pos E)
    have hhi : ((M - 2 ^ (-E).toNat : ℤ) : ℚ) ≤ M :=
      le_of_mul_le_mul_right (by rw [← hMK, ← hM]; linarith) (two_zpow_pos E)
    rw [hMK]
    exact fl_eq_self_of_grid _ _ (abs_le.2 ⟨by linarith [(abs_le.1 hM53).1],
      hhi.trans ((le_abs_self _).trans hM53)⟩)

end Paygate.RateLimit.Float64
