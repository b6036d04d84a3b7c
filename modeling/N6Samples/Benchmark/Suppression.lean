import N6Samples.Benchmark.PostProcessBounds
import N6Samples.Lib.Greedy

/-! # What suppression makes of the candidates

The passes over the scratch buffer seen as loops over its entries. Sorting hands the
entries to `qsort`; the two suppression loops are a greedy selection in place, the limit
loop cuts it, and score filtering copies what is left.
-/

namespace N6Samples.Benchmark

open Loop Greedy

/-! ## Entries of the scratch buffer -/

theorem Mem.read_write (mem : Mem) (p : Ptr) (i j : ℕ) (w : Word) :
    (mem.write p i w).read p j = if j = i then w else mem.read p j := by
  simp only [Mem.read, Mem.write, Function.update_self, Function.update_apply,
    Nat.add_left_cancel_iff]

namespace Machine

variable (m : Machine) (s : Ptr)

theorem read_setField (i field : ℕ) (w : Word) (j : ℕ) :
    (m.setField s i field w).mem.read s j =
      if j = entryWords * i + field then w else m.mem.read s j :=
  Mem.read_write m.mem s _ j w

/-- A write into an entry leaves the other entries alone. -/
theorem entry_setField_of_ne {i k : ℕ} (h : k ≠ i) {field : ℕ} (hfield : field < entryWords)
    (w : Word) : (m.setField s i field w).entry s k = m.entry s k := by
  have hother : ∀ word < entryWords, (m.setField s i field w).mem.read s (entryWords * k + word) =
      m.mem.read s (entryWords * k + word) := by
    intro word hword
    rw [read_setField, if_neg]
    unfold entryWords at hfield hword ⊢
    omega
  unfold entry
  rw [hother 1 (by decide), hother 2 (by decide), hother 3 (by decide), hother 4 (by decide),
    hother 5 (by decide), ← Nat.add_zero (entryWords * k), hother 0 (by decide)]

theorem entry_setConf (i : ℕ) (w : Word) : (m.setConf s i w).entry s =
    Function.update (m.entry s) i { m.entry s i with conf := w } := by
  funext k
  by_cases hk : k = i
  · subst hk
    simp [entry, setConf, read_setField, entryWords]
  · rw [Function.update_of_ne hk]
    exact m.entry_setField_of_ne s hk (by decide) w

theorem entry_setClassIndex (i : ℕ) (w : Word) : (m.setClassIndex s i w).entry s =
    Function.update (m.entry s) i { m.entry s i with classIndex := Int32.ofBitVec w } := by
  funext k
  by_cases hk : k = i
  · subst hk
    simp [entry, setClassIndex, read_setField, entryWords]
  · rw [Function.update_of_ne hk]
    exact m.entry_setField_of_ne s hk (by decide) w

theorem entry_setEntry (i : ℕ) (e : OutBuffer Word) :
    (m.setEntry s i e).entry s = Function.update (m.entry s) i e := by
  funext k
  by_cases hk : k = i
  · subst hk
    simp [entry, setEntry, setXCenter, setYCenter, setWidth, setHeight, setConf, setClassIndex,
      read_setField, entryWords]
  · rw [Function.update_of_ne hk]
    unfold setEntry setXCenter setYCenter setWidth setHeight setConf setClassIndex
    repeat rw [entry_setField_of_ne _ s hk (by decide)]

end Machine

/-- The first `n` entries. -/
def scratchEntries (s : Ptr) (n : ℕ) (m : Machine) : List (OutBuffer Word) :=
  (List.range n).map (m.entry s)

/-- An entry counts as long as its confidence is not zero. -/
def confMarking (ops : FloatOps) : Marking (OutBuffer Word) where
  live e := !ops.isZero e.conf
  drop e := { e with conf := ops.lit 0 }
  live_drop _ := by
    rw [show ops.isZero (ops.lit 0) = true from ops.zero_eq_zero]
    rfl

/-- The test of the inner suppression loop. -/
def tooClose (ops : FloatOps) (iouThreshold : Word) (a b : OutBuffer Word) : Bool :=
  ops.lt iouThreshold (ops.boxIou a b)

/-- The detections among the first `n` entries. -/
def remaining (ops : FloatOps) (s : Ptr) (n : ℕ) (m : Machine) : List (OutBuffer Word) :=
  (confMarking ops).remaining (m.entry s) n

variable {ops : FloatOps} {qsort : Qsort} {s : Ptr} {p : StaticParam} {m : Machine} {n : ℕ}

theorem remaining_eq (s : Ptr) (n : ℕ) (m : Machine) :
    remaining ops s n m = (scratchEntries s n m).filter (confMarking ops).live := rfl

/-! ## The passes -/

theorem storeEntries_entry (es : List (OutBuffer Word)) (i : ℕ) (m : Machine) {k : ℕ}
    (hk : k < i) : (storeEntries s i es m).entry s k = m.entry s k := by
  induction es generalizing i m with
  | nil => rfl
  | cons e es ih =>
      rw [storeEntries, ih (i + 1) _ (by omega), Machine.entry_setEntry,
        Function.update_of_ne (by omega)]

theorem storeEntries_getElem (es : List (OutBuffer Word)) (i : ℕ) (m : Machine) {k : ℕ}
    (hk : k < es.length) : (storeEntries s i es m).entry s (i + k) = es[k] := by
  induction es generalizing i m k with
  | nil => exact absurd hk (Nat.not_lt_zero k)
  | cons e es ih =>
      rw [storeEntries]
      cases k with
      | zero =>
          have hlast := storeEntries_entry (s := s) es (i + 1) (m.setEntry s i e)
            (Nat.lt_succ_self i)
          rw [Machine.entry_setEntry, Function.update_self] at hlast
          exact hlast
      | succ k =>
          have hnext := ih (i + 1) (m.setEntry s i e) (Nat.lt_of_succ_lt_succ hk)
          rwa [Nat.succ_add_eq_add_succ] at hnext

theorem entries_sortEntries (ops : FloatOps) (qsort : Qsort) (s : Ptr) (k n : ℕ) (m : Machine) :
    scratchEntries s n (sortEntries ops qsort s k n m) =
      qsort.sort (nmsComparator ops k) (scratchEntries s n m) := by
  have hlength : (qsort.sort (nmsComparator ops k) (scratchEntries s n m)).length = n := by
    rw [(qsort.perm _ _).length_eq, scratchEntries, List.length_map, List.length_range]
  apply List.ext_getElem
  · rw [hlength, scratchEntries, List.length_map, List.length_range]
  · intro i _ hi
    have hstored := storeEntries_getElem (s := s) _ 0 m hi
    rw [Nat.zero_add] at hstored
    rw [← hstored]
    simp only [scratchEntries, List.getElem_map, List.getElem_range]
    rfl

theorem live_of_isZero {i : ℕ} (h : ops.isZero (m.conf s i) = true) :
    (confMarking ops).live (m.entry s i) = false := congrArg not h

theorem live_of_not_isZero {i : ℕ} (h : ¬ ops.isZero (m.conf s i) = true) :
    (confMarking ops).live (m.entry s i) = true := congrArg not (Bool.eq_false_iff.mpr h)

theorem suppressOne_entry (iouThreshold : Word) (i j : ℕ) (m : Machine) :
    (suppressOne ops s iouThreshold i j m).entry s =
      (confMarking ops).strikeOne (tooClose ops iouThreshold) i j (m.entry s) := by
  unfold suppressOne Marking.strikeOne
  simp only
  split
  case isTrue hzero =>
    have hdead : (confMarking ops).live (m.entry s j) = false := live_of_isZero hzero
    rw [hdead]
    rfl
  case isFalse hzero =>
    have hlive : (confMarking ops).live (m.entry s j) = true := live_of_not_isZero hzero
    rw [hlive, if_pos rfl]
    split
    case isTrue hclose =>
      have htest : tooClose ops iouThreshold (m.entry s i) (m.entry s j) = true := hclose
      rw [if_pos htest]
      exact Machine.entry_setConf _ s j _
    case isFalse hclose =>
      have htest : ¬ tooClose ops iouThreshold (m.entry s i) (m.entry s j) = true := hclose
      rw [if_neg htest]
      rfl

theorem suppress_entry (iouThreshold : Word) (n : ℕ) (m : Machine) :
    (suppress ops s iouThreshold n m).entry s =
      (confMarking ops).sweep (tooClose ops iouThreshold) n (m.entry s) := by
  refine forRange_map (fun m : Machine => m.entry s) m ?_
  intro i m
  unfold Marking.strikeFrom
  simp only
  split
  case isTrue hzero =>
    have hdead : (confMarking ops).live (m.entry s i) = false := live_of_isZero hzero
    rw [hdead]
    rfl
  case isFalse hzero =>
    have hlive : (confMarking ops).live (m.entry s i) = true := live_of_not_isZero hzero
    rw [hlive, if_pos rfl]
    exact forRange_map (fun m : Machine => m.entry s) (m.touch i) fun j m =>
      suppressOne_entry iouThreshold i j m

theorem limitOne_entry (limit : ℤ) (y : ℕ) (x : Machine × ℤ) :
    ((limitOne ops s limit y x).1.entry s, (limitOne ops s limit y x).2) =
      (confMarking ops).capOne limit y (x.1.entry s, x.2) := by
  rcases x with ⟨m, counter⟩
  unfold limitOne Marking.capOne
  by_cases hroom : counter < limit
  · by_cases hzero : ops.isZero ((m.touch y).conf s y) = true
    · have hdead : (confMarking ops).live (m.entry s y) = false := live_of_isZero hzero
      simp only [if_pos hroom, if_pos hzero]
      rw [hdead, if_neg (fun h => Bool.false_ne_true h.2), Machine.entry_setConf]
      rfl
    · have hlive : (confMarking ops).live (m.entry s y) = true := live_of_not_isZero hzero
      simp only [if_pos hroom, if_neg hzero]
      rw [hlive, if_pos ⟨hroom, rfl⟩]
      rfl
  · simp only [if_neg hroom]
    rw [if_neg (fun h => hroom h.1), Machine.entry_setConf]
    rfl

theorem limitBoxes_entry (limit : ℤ) (n : ℕ) (m : Machine) :
    (limitBoxes ops s limit n m).entry s =
      (confMarking ops).cap limit (n + 1) (m.entry s) := by
  let view (x : Machine × ℤ) : (ℕ → OutBuffer Word) × ℤ := (x.1.entry s, x.2)
  have hloop : view (forRange 0 (n + 1) (limitOne ops s limit) (m, 0)) =
      forRange 0 (n + 1) ((confMarking ops).capOne limit) (view (m, 0)) :=
    forRange_map view (m, 0) fun y x => limitOne_entry limit y x
  exact congrArg Prod.fst hloop

/-- The pass of `yolov2_pp_nmsFiltering_centroid` for one class. -/
def nmsPass (ops : FloatOps) (qsort : Qsort) (s : Ptr) (p : StaticParam) (k : ℕ) (m : Machine) :
    Machine :=
  let m := sortEntries ops qsort s k p.nbDetect.toNat m
  let m := suppress ops s p.iouThreshold p.nbDetect.toNat m
  limitBoxes ops s p.maxBoxesLimit p.nbDetect.toNat m

/-- A pass keeps, up to the limit, what greedy selection keeps of the sorted entries. -/
theorem remaining_nmsPass (ops : FloatOps) (qsort : Qsort) (s : Ptr) (p : StaticParam) (k : ℕ)
    (m : Machine) :
    remaining ops s p.nbDetect.toNat (nmsPass ops qsort s p k m) =
      (greedy (tooClose ops p.iouThreshold)
        ((qsort.sort (nmsComparator ops k) (scratchEntries s p.nbDetect.toNat m)).filter
          (confMarking ops).live)).take p.maxBoxesLimit.toNat := by
  unfold remaining nmsPass
  rw [limitBoxes_entry, Marking.remaining_cap _ _ (Nat.le_succ _), suppress_entry,
    Marking.remaining_sweep, ← entries_sortEntries]
  rfl

/-! ## Score filtering -/

theorem scoreFiltering_detections (ops : FloatOps) (s : Ptr) (p : StaticParam) (m : Machine) :
    (scoreFiltering ops s p m).2 = remaining ops s p.nbDetect.toNat m := by
  let Copied (i : ℕ) (x : Machine × List (OutBuffer Word)) : Prop :=
    x.1.mem = m.mem ∧ x.2 = remaining ops s i m
  have hstart : Copied 0 (m, []) := ⟨rfl, rfl⟩
  suffices hend : Copied (0 + p.nbDetect.toNat) (scoreFiltering ops s p m) by
    rw [Nat.zero_add] at hend
    exact hend.2
  apply forRange_invariant Copied hstart
  intro i x _ _ hx
  rcases x with ⟨t, copied⟩
  rcases hx with ⟨hmem, hcopied⟩
  simp only at hmem hcopied
  have hentry : t.entry s i = m.entry s i := by
    unfold Machine.entry
    rw [hmem]
  have hnext : remaining ops s (i + 1) m =
      copied ++ if (confMarking ops).live (t.entry s i) then [t.entry s i] else [] := by
    rw [hcopied, hentry]
    exact (confMarking ops).remaining_succ _ i
  by_cases hzero : ops.isZero ((t.touch i).conf s i) = true
  · have hdead : (confMarking ops).live (t.entry s i) = false := live_of_isZero hzero
    rw [hdead, if_neg Bool.false_ne_true, List.append_nil] at hnext
    simp only [if_pos hzero]
    exact ⟨hmem, hnext.symm⟩
  · have hlive : (confMarking ops).live (t.entry s i) = true := live_of_not_isZero hzero
    rw [hlive, if_pos rfl] at hnext
    simp only [if_neg hzero]
    exact ⟨hmem, hnext.symm⟩

end N6Samples.Benchmark
