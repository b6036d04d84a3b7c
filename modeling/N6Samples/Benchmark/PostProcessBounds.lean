import N6Samples.Benchmark.ScratchBounds

/-! # What post-processing changes, and how much it reports

Post-processing writes one block of memory only, the one of its scratch buffer, and
reports at most as many detections as the box limit allows.
-/

namespace N6Samples.Benchmark

open Loop

/-! ## The scratch block -/

/-- Memory outside the block of `s` is that of `mem`. -/
def SameOutside (s : Ptr) (mem : Mem) (m : Machine) : Prop :=
  ∀ block, block ≠ s.block → m.mem block = mem block

variable {ops : FloatOps} {s : Ptr} {mem : Mem} {m : Machine}

theorem Within.sameOutside {b : ℕ} {m' : Machine} (h : Within s b m m') :
    SameOutside s m.mem m' := by
  induction h with
  | refl => exact fun _ _ => rfl
  | tail _ haccess ih =>
      intro block hblock
      rw [← ih block hblock]
      cases haccess with
      | read i hi => rfl
      | write i field w hi hfield => exact Function.update_of_ne hblock _ _

/-- Only the block of the scratch buffer changes. -/
theorem processIn_sameOutside (ops : FloatOps) (qsort : Qsort) (raw : Ptr) (p : StaticParam) :
    SameOutside s mem (processIn ops qsort raw s p mem).machine :=
  (processIn_within qsort raw mem).sameOutside

/-! ## The box limit -/

theorem conf_setConf_self (m : Machine) (s : Ptr) (y : ℕ) (w : Word) :
    (m.setConf s y w).conf s y = w := by
  simp only [Machine.conf, Machine.setConf, Machine.setField, Mem.read, Mem.write,
    Function.update_self]

theorem conf_setConf_of_ne (m : Machine) (s : Ptr) {i y : ℕ} (w : Word) (h : i ≠ y) :
    (m.setConf s y w).conf s i = m.conf s i := by
  have hoffset : s.offset + (entryWords * i + 4) ≠ s.offset + (entryWords * y + 4) := by
    unfold entryWords
    omega
  simp only [Machine.conf, Machine.setConf, Machine.setField, Machine.touch, Mem.read, Mem.write,
    Function.update_self, Function.update_of_ne hoffset]

/-- How many of the first `k` entries still count as detections. -/
def survivors (ops : FloatOps) (s : Ptr) (m : Machine) : ℕ → ℕ
  | 0 => 0
  | k + 1 => survivors ops s m k + if ops.isZero (m.conf s k) then 0 else 1

theorem survivors_congr {t : Machine} {k : ℕ} (h : ∀ i < k, t.conf s i = m.conf s i) :
    survivors ops s t k = survivors ops s m k := by
  induction k with
  | zero => rfl
  | succ k ih =>
      rw [survivors, survivors, ih fun i hi => h i (by omega), h k (by omega)]

theorem survivors_touch (i k : ℕ) : survivors ops s (m.touch i) k = survivors ops s m k :=
  survivors_congr fun _ _ => rfl

theorem survivors_clear (y : ℕ) :
    survivors ops s (m.setConf s y (ops.lit 0)) (y + 1) = survivors ops s m y := by
  have hzero : ops.isZero (ops.lit 0) = true := ops.zero_eq_zero
  have hbelow : survivors ops s (m.setConf s y (ops.lit 0)) y = survivors ops s m y :=
    survivors_congr fun i hi => conf_setConf_of_ne m s (ops.lit 0) (by omega)
  rw [survivors, hbelow, conf_setConf_self, if_pos hzero, Nat.add_zero]

/-- Before iteration `y` of the limit loop, the counter is right and within the limit. -/
def Counted (ops : FloatOps) (s : Ptr) (limit : ℤ) (y : ℕ) (x : Machine × ℤ) : Prop :=
  x.2 = survivors ops s x.1 y ∧ x.2 ≤ limit

theorem limitOne_counted {limit : ℤ} {y : ℕ} {x : Machine × ℤ} (h : Counted ops s limit y x) :
    Counted ops s limit (y + 1) (limitOne ops s limit y x) := by
  rcases x with ⟨m, counter⟩
  rcases h with ⟨hcount, hlimit⟩
  simp only at hcount hlimit
  unfold Counted limitOne
  by_cases hroom : counter < limit
  · by_cases hzero : ops.isZero ((m.touch y).conf s y) = true
    · simp only [if_pos hroom, if_pos hzero]
      rw [survivors_clear, survivors_touch]
      exact ⟨hcount, hlimit⟩
    · simp only [if_pos hroom, if_neg hzero]
      rw [survivors, if_neg hzero, survivors_touch]
      omega
  · simp only [if_neg hroom]
    rw [survivors_clear]
    exact ⟨hcount, hlimit⟩

theorem limitBoxes_survivors {limit : ℤ} (hlimit : 0 ≤ limit) (n : ℕ) :
    (survivors ops s (limitBoxes ops s limit n m) n : ℤ) ≤ limit := by
  have hstart : Counted ops s limit 0 (m, 0) := ⟨rfl, hlimit⟩
  have hend : Counted ops s limit (0 + (n + 1))
      (forRange 0 (n + 1) (limitOne ops s limit) (m, 0)) :=
    forRange_invariant (Counted ops s limit) hstart fun y x _ _ hx => limitOne_counted hx
  rcases hend with ⟨hcount, hbound⟩
  rw [hcount, Nat.zero_add, survivors] at hbound
  unfold limitBoxes
  omega

theorem nmsFiltering_survivors (ops : FloatOps) (qsort : Qsort) (p : StaticParam)
    (hclasses : 1 ≤ p.nbClasses) (hlimit : 0 ≤ p.maxBoxesLimit) :
    (survivors ops s (nmsFiltering ops qsort s p m) p.nbDetect.toNat : ℤ) ≤ p.maxBoxesLimit := by
  rcases nmsFiltering_last ops qsort s m hclasses with ⟨m', hlast⟩
  rw [hlast]
  exact limitBoxes_survivors hlimit _

/-- Before iteration `i` of the copy loop, the survivors so far have been copied. -/
def Copied (ops : FloatOps) (s : Ptr) (m : Machine) (i : ℕ)
    (x : Machine × List (OutBuffer Word)) : Prop :=
  x.1.mem = m.mem ∧ x.2.length = survivors ops s m i

theorem scoreFiltering_length (p : StaticParam) :
    (scoreFiltering ops s p m).2.length = survivors ops s m p.nbDetect.toNat := by
  have hstart : Copied ops s m 0 (m, []) := ⟨rfl, rfl⟩
  have hend : Copied ops s m (0 + p.nbDetect.toNat) (scoreFiltering ops s p m) := by
    apply forRange_invariant (Copied ops s m) hstart
    intro i x _ _ hx
    rcases hx with ⟨hmem, hlength⟩
    have hconf : (x.1.touch i).conf s i = m.conf s i := by
      simp only [Machine.conf, Machine.touch, hmem]
    simp only [hconf]
    unfold Copied
    by_cases hzero : ops.isZero (m.conf s i) = true
    · rw [if_pos hzero, survivors, if_pos hzero]
      exact ⟨hmem, hlength⟩
    · rw [if_neg hzero, survivors, if_neg hzero, List.length_append, hlength]
      exact ⟨hmem, rfl⟩
  rw [Nat.zero_add] at hend
  exact hend.2

/-- With at least one class, the box limit bounds what is reported. -/
theorem processIn_length (qsort : Qsort) (raw : Ptr) {p : StaticParam}
    (hclasses : 1 ≤ p.nbClasses) (hlimit : 0 ≤ p.maxBoxesLimit) :
    ((processIn ops qsort raw s p mem).detections.length : ℤ) ≤ p.maxBoxesLimit := by
  have hsmall := nmsFiltering_survivors ops qsort (getNNBoxes ops raw s p ⟨mem, []⟩).2
    hclasses hlimit (s := s) (m := (getNNBoxes ops raw s p ⟨mem, []⟩).1)
  rw [← scoreFiltering_length] at hsmall
  exact hsmall

end N6Samples.Benchmark
