import Mathlib.Data.List.Sort
import N6Samples.Benchmark.Decoding

/-! # What post-processing reports

The three passes together against what they are for: the candidates of the network output,
sorted, selected greedily and cut at the box limit. Where the candidates were built does
not show in the result, and with several classes only the pass for the first one selects.
-/

namespace N6Samples.Benchmark

open Loop Greedy

/-- The detections of a network output. -/
def detect (ops : FloatOps) (qsort : Qsort) (raw : Ptr) (p : StaticParam) (mem : Mem) :
    List (OutBuffer Word) :=
  (greedy (tooClose ops p.iouThreshold)
    ((qsort.sort (nmsComparator ops 0) (candidateList ops raw p mem)).filter
      (confMarking ops).live)).take p.maxBoxesLimit.toNat

variable {ops : FloatOps} {qsort : Qsort} {raw s s' : Ptr} {p q : StaticParam} {mem : Mem}
  {m m' : Machine} {n : ℕ}

theorem mem_detect {e : OutBuffer Word} (h : e ∈ detect ops qsort raw p mem) :
    e ∈ candidateList ops raw p mem ∧ (confMarking ops).live e = true := by
  have hkept := (greedy_sublist _).mem (List.mem_of_mem_take h)
  rw [List.mem_filter, (qsort.perm _ _).mem_iff] at hkept
  exact hkept

theorem detect_length : (detect ops qsort raw p mem).length ≤ p.maxBoxesLimit.toNat := by
  unfold detect
  rw [List.length_take]
  exact Nat.min_le_left _ _

theorem detect_pairwise :
    (detect ops qsort raw p mem).Pairwise fun a b => tooClose ops p.iouThreshold a b = false :=
  (greedy_pairwise _).sublist (List.take_sublist _ _)

/-! ## From extraction to score filtering -/

/-- The parameters once the candidates are counted. -/
def counted (ops : FloatOps) (raw : Ptr) (p : StaticParam) (mem : Mem) : StaticParam :=
  { p with nbDetect := (candidateList ops raw p mem).length }

theorem getNNBoxes_param (ops : FloatOps) (harr : Arranged raw s p) (mem : Mem) :
    (getNNBoxes ops raw s p ⟨mem, []⟩).2 = counted ops raw p mem := by
  have hcount := (getNNBoxes_candidates ops harr mem).1
  unfold counted
  rw [← hcount]
  rfl

/-- Post-processing reports what the suppression passes leave of the candidates. -/
theorem processIn_passes (ops : FloatOps) (qsort : Qsort) (harr : Arranged raw s p) (mem : Mem) :
    ∃ m, scratchEntries s (candidateList ops raw p mem).length m = candidateList ops raw p mem ∧
      (processIn ops qsort raw s p mem).param = counted ops raw p mem ∧
      (processIn ops qsort raw s p mem).detections =
        remaining ops s (candidateList ops raw p mem).length
          (forRange 0 p.nbClasses.toNat (nmsPass ops qsort s (counted ops raw p mem)) m) := by
  have hparam := getNNBoxes_param ops harr mem
  refine ⟨(getNNBoxes ops raw s p ⟨mem, []⟩).1, (getNNBoxes_candidates ops harr mem).2, hparam, ?_⟩
  unfold processIn
  simp only [hparam, scoreFiltering_detections]
  rfl

/-- A pass over the candidates alone finds the detections. -/
theorem remaining_firstPass (hm : scratchEntries s (candidateList ops raw p mem).length m =
    candidateList ops raw p mem) :
    remaining ops s (candidateList ops raw p mem).length
      (nmsPass ops qsort s (counted ops raw p mem) 0 m) = detect ops qsort raw p mem := by
  have hpass := remaining_nmsPass ops qsort s (counted ops raw p mem) 0 m
  unfold counted at hpass
  simp only [Int.toNat_natCast] at hpass
  rw [hm] at hpass
  exact hpass

/-- With one class, post-processing reports the detections. -/
theorem processIn_detect (ops : FloatOps) (qsort : Qsort) (harr : Arranged raw s p)
    (hclass : p.nbClasses = 1) (mem : Mem) :
    (processIn ops qsort raw s p mem).detections = detect ops qsort raw p mem := by
  obtain ⟨m, hm, -, hdetections⟩ := processIn_passes ops qsort harr mem
  have hpasses : p.nbClasses.toNat = 1 := by omega
  rw [hdetections, hpasses]
  exact remaining_firstPass hm

/-! ## Two scratch buffers -/

theorem scratchEntries_eq_iff :
    scratchEntries s n m = scratchEntries s' n m' ↔ ∀ i < n, m.entry s i = m'.entry s' i := by
  simp [scratchEntries]

theorem nmsPass_entry (k i : ℕ) : (nmsPass ops qsort s p k m).entry s i =
    (confMarking ops).cap p.maxBoxesLimit (p.nbDetect.toNat + 1)
      ((confMarking ops).sweep (tooClose ops p.iouThreshold) p.nbDetect.toNat
        ((sortEntries ops qsort s k p.nbDetect.toNat m).entry s)) i := by
  unfold nmsPass
  rw [limitBoxes_entry, suppress_entry]

/-- A pass over the same candidates leaves the same candidates. -/
theorem nmsPass_related (k : ℕ) (h : scratchEntries s p.nbDetect.toNat m =
    scratchEntries s' p.nbDetect.toNat m') :
    scratchEntries s p.nbDetect.toNat (nmsPass ops qsort s p k m) =
      scratchEntries s' p.nbDetect.toNat (nmsPass ops qsort s' p k m') := by
  have hsorted : scratchEntries s p.nbDetect.toNat (sortEntries ops qsort s k p.nbDetect.toNat m) =
      scratchEntries s' p.nbDetect.toNat (sortEntries ops qsort s' k p.nbDetect.toNat m') := by
    rw [entries_sortEntries, entries_sortEntries, h]
  rw [scratchEntries_eq_iff] at hsorted ⊢
  intro i hi
  rw [nmsPass_entry, nmsPass_entry]
  exact Marking.cap_congr (Marking.sweep_congr hsorted) i hi

/-- Building the candidates over the raw detections, or in any other buffer, changes nothing
about what is reported. -/
theorem processIn_scratch_independent (ops : FloatOps) (qsort : Qsort) (raw s s' : Ptr)
    (p : StaticParam) (mem : Mem) (harr : Arranged raw s p) (harr' : Arranged raw s' p) :
    (processIn ops qsort raw s p mem).detections =
      (processIn ops qsort raw s' p mem).detections := by
  obtain ⟨m, hm, -, hdetections⟩ := processIn_passes ops qsort harr mem
  obtain ⟨m', hm', -, hdetections'⟩ := processIn_passes ops qsort harr' mem
  let q := counted ops raw p mem
  have hpasses : scratchEntries s q.nbDetect.toNat
        (forRange 0 p.nbClasses.toNat (nmsPass ops qsort s q) m) =
      scratchEntries s' q.nbDetect.toNat
        (forRange 0 p.nbClasses.toNat (nmsPass ops qsort s' q) m') := by
    apply forRange_related (fun m m' => scratchEntries s q.nbDetect.toNat m =
      scratchEntries s' q.nbDetect.toNat m')
    · exact hm.trans hm'.symm
    · intro k m m' _ _ h
      exact nmsPass_related k h
  rw [hdetections, hdetections', remaining_eq, remaining_eq]
  exact congrArg (List.filter (confMarking ops).live) hpasses

/-- One cell with three anchors. -/
def smallGrid (nbClasses : ℤ) (confThreshold : ℚ) : StaticParam :=
  ⟨nbClasses, 3, 1, 1, 1, 10, nearestFloat confThreshold, nearestFloat 0.3, ⟨1, 0⟩, 0, 0, 0, none⟩

/-- Ones in every raw detection, so that each becomes a candidate. -/
def onesMem : Mem := fun block word =>
  if block = 1 then nearestFloat (anchorTable.getD word 0) else 0x3F800000

theorem processIn_scratch_independent_smallGrid :
    (processIn singleFloat keepOrder ⟨0, 0⟩ ⟨0, 0⟩ (smallGrid 2 0.3) onesMem).detections =
      (processIn singleFloat keepOrder ⟨0, 0⟩ ⟨2, 0⟩ (smallGrid 2 0.3) onesMem).detections :=
  processIn_scratch_independent singleFloat keepOrder ⟨0, 0⟩ ⟨0, 0⟩ ⟨2, 0⟩ (smallGrid 2 0.3)
    onesMem ⟨by decide, by decide⟩ ⟨by decide, by decide⟩

/-! ## Several classes -/

/-- Neither entry suppresses the other. -/
def Apart (ops : FloatOps) (iouThreshold : Word) (a b : OutBuffer Word) : Prop :=
  tooClose ops iouThreshold a b = false ∧ tooClose ops iouThreshold b a = false

/-- Once no entry suppresses another and the limit is kept, a pass only reorders. -/
theorem nmsPass_settled (k : ℕ) {settled : List (OutBuffer Word)}
    (hm : (remaining ops s p.nbDetect.toNat m).Perm settled)
    (hapart : settled.Pairwise (Apart ops p.iouThreshold))
    (hlimit : settled.length ≤ p.maxBoxesLimit.toNat) :
    (remaining ops s p.nbDetect.toNat (nmsPass ops qsort s p k m)).Perm settled := by
  rw [remaining_nmsPass]
  let sorted := (qsort.sort (nmsComparator ops k) (scratchEntries s p.nbDetect.toNat m)).filter
    (confMarking ops).live
  have hsorted : sorted.Perm settled := ((qsort.perm _ _).filter _).trans hm
  have hpairs : sorted.Pairwise (Apart ops p.iouThreshold) :=
    (hsorted.pairwise_iff fun h => ⟨h.2, h.1⟩).mpr hapart
  have hall : greedy (tooClose ops p.iouThreshold) sorted = sorted :=
    greedy_of_pairwise (hpairs.imp fun h => h.1)
  have hshort : sorted.length ≤ p.maxBoxesLimit.toNat := hsorted.length_eq.trans_le hlimit
  change ((greedy _ sorted).take _).Perm settled
  rw [hall, List.take_of_length_le hshort]
  exact hsorted

theorem detect_apart (hsymm : ∀ a ∈ candidateList ops raw p mem, ∀ b ∈ candidateList ops raw p mem,
      tooClose ops p.iouThreshold a b = tooClose ops p.iouThreshold b a) :
    (detect ops qsort raw p mem).Pairwise (Apart ops p.iouThreshold) := by
  apply List.Pairwise.imp_of_mem _ detect_pairwise
  intro a b ha hb hab
  refine ⟨hab, ?_⟩
  rw [← hsymm a (mem_detect ha).1 b (mem_detect hb).1]
  exact hab

/-- Suppression looks at no class: with any number of classes, the pass for class 0 decides
what is reported, and the other passes only reorder it. -/
theorem processIn_perm_detect (ops : FloatOps) (qsort : Qsort) (raw s : Ptr) (p : StaticParam)
    (mem : Mem) (harr : Arranged raw s p) (hclasses : 1 ≤ p.nbClasses)
    (hsymm : ∀ a ∈ candidateList ops raw p mem, ∀ b ∈ candidateList ops raw p mem,
      tooClose ops p.iouThreshold a b = tooClose ops p.iouThreshold b a) :
    (processIn ops qsort raw s p mem).detections.Perm (detect ops qsort raw p mem) := by
  obtain ⟨m, hm, -, hdetections⟩ := processIn_passes ops qsort harr mem
  let q := counted ops raw p mem
  let pass := nmsPass ops qsort s q
  obtain ⟨rest, hrest⟩ := Nat.exists_eq_add_of_le' (show 1 ≤ p.nbClasses.toNat by omega)
  have hfirst : (remaining ops s q.nbDetect.toNat (pass 0 m)).Perm (detect ops qsort raw p mem) :=
    List.Perm.of_eq (remaining_firstPass hm)
  have hlast : (remaining ops s q.nbDetect.toNat (forRange 1 rest pass (pass 0 m))).Perm
      (detect ops qsort raw p mem) := by
    apply forRange_preserves
      (fun m => (remaining ops s q.nbDetect.toNat m).Perm (detect ops qsort raw p mem)) hfirst
    intro k m h
    exact nmsPass_settled k h (detect_apart hsymm) detect_length
  rw [hdetections, hrest, Nat.add_comm rest 1, forRange_add]
  exact hlast

/-- The box of the second anchor suppresses that of the third. -/
theorem processIn_perm_detect_smallGrid :
    (candidateList singleFloat ⟨0, 0⟩ (smallGrid 2 0.3) onesMem).length = 3 ∧
      (processIn singleFloat keepOrder ⟨0, 0⟩ ⟨0, 0⟩ (smallGrid 2 0.3) onesMem).detections.length =
        2 ∧
      (processIn singleFloat keepOrder ⟨0, 0⟩ ⟨0, 0⟩ (smallGrid 2 0.3) onesMem).detections.Perm
        (detect singleFloat keepOrder ⟨0, 0⟩ (smallGrid 2 0.3) onesMem) := by
  have hsymm : ∀ a ∈ candidateList singleFloat ⟨0, 0⟩ (smallGrid 2 0.3) onesMem,
      ∀ b ∈ candidateList singleFloat ⟨0, 0⟩ (smallGrid 2 0.3) onesMem,
        tooClose singleFloat (smallGrid 2 0.3).iouThreshold a b =
          tooClose singleFloat (smallGrid 2 0.3).iouThreshold b a := by
    decide +kernel
  exact ⟨by decide +kernel, by decide +kernel,
    processIn_perm_detect singleFloat keepOrder ⟨0, 0⟩ ⟨0, 0⟩ (smallGrid 2 0.3) onesMem
      ⟨by decide, by decide⟩ (by decide) hsymm⟩

/-! ## Order of the detections -/

/-- The comparator orders the entries. -/
structure Consistent (compare : OutBuffer Word → OutBuffer Word → ℤ)
    (es : List (OutBuffer Word)) : Prop where
  flip : ∀ a ∈ es, ∀ b ∈ es, compare a b < 0 ↔ 0 < compare b a
  trans : ∀ a ∈ es, ∀ b ∈ es, ∀ c ∈ es, compare a b ≤ 0 → compare b c ≤ 0 → compare a c ≤ 0

/-- `qsort` sorts the entries that its comparator orders. -/
def Qsort.Sorts (qsort : Qsort) : Prop :=
  ∀ compare es, Consistent compare es → (qsort.sort compare es).Pairwise (compare · · ≤ 0)

/-- The sign of a difference of confidences tells the greater one. -/
structure SignOrdered (ops : FloatOps) (value : Word → ℚ) (es : List (OutBuffer Word)) : Prop where
  below : ∀ a ∈ es, ∀ b ∈ es,
    ops.lt (ops.sub a.conf b.conf) (ops.lit 0) = true ↔ value a.conf < value b.conf
  above : ∀ a ∈ es, ∀ b ∈ es,
    ops.lt (ops.lit 0) (ops.sub a.conf b.conf) = true ↔ value b.conf < value a.conf

/-- What is reported, against the candidates: no two boxes too close, the best ones first, and
every candidate that is left out accounted for. -/
structure Selected (ops : FloatOps) (p : StaticParam) (value : Word → ℚ)
    (candidates reported : List (OutBuffer Word)) : Prop where
  found : ∀ d ∈ reported, d ∈ candidates
  limit : reported.length ≤ p.maxBoxesLimit.toNat
  best_first : reported.Pairwise fun a b => value b.conf ≤ value a.conf
  apart : reported.Pairwise fun a b => tooClose ops p.iouThreshold a b = false
  accounted : ∀ c ∈ candidates, (confMarking ops).live c = true →
    c ∈ reported ∨
    (∃ d ∈ reported, tooClose ops p.iouThreshold d c = true ∧ value c.conf ≤ value d.conf) ∨
    reported.length = p.maxBoxesLimit.toNat ∧ ∀ d ∈ reported, value c.conf ≤ value d.conf

variable {value : Word → ℚ} {es : List (OutBuffer Word)}

theorem SignOrdered.nmsComparator_eq (h : SignOrdered ops value es) {k : ℕ}
    (hclass : ∀ e ∈ es, e.classIndex = Int32.ofNat k) {a b : OutBuffer Word} (ha : a ∈ es)
    (hb : b ∈ es) :
    nmsComparator ops k a b =
      if value a.conf < value b.conf then 1 else if value b.conf < value a.conf then -1 else 0 := by
  unfold nmsComparator
  simp only [if_pos (hclass a ha), if_pos (hclass b hb), h.below a ha b hb, h.above a ha b hb]

theorem SignOrdered.nonpos_iff (h : SignOrdered ops value es) {k : ℕ} {a b : OutBuffer Word}
    (hclass : ∀ e ∈ es, e.classIndex = Int32.ofNat k) (ha : a ∈ es) (hb : b ∈ es) :
    nmsComparator ops k a b ≤ 0 ↔ value b.conf ≤ value a.conf := by
  rw [h.nmsComparator_eq hclass ha hb]
  by_cases hless : value a.conf < value b.conf
  · simp [hless]
  · rw [if_neg hless]
    split <;> simp [not_lt.mp hless]

theorem SignOrdered.neg_iff (h : SignOrdered ops value es) {k : ℕ} {a b : OutBuffer Word}
    (hclass : ∀ e ∈ es, e.classIndex = Int32.ofNat k) (ha : a ∈ es) (hb : b ∈ es) :
    nmsComparator ops k a b < 0 ↔ value b.conf < value a.conf := by
  rw [h.nmsComparator_eq hclass ha hb]
  by_cases hless : value a.conf < value b.conf
  · simp [hless, hless.le]
  · rw [if_neg hless]
    split <;> simp_all

theorem SignOrdered.consistent (h : SignOrdered ops value es) {k : ℕ}
    (hclass : ∀ e ∈ es, e.classIndex = Int32.ofNat k) : Consistent (nmsComparator ops k) es := by
  constructor
  · intro a ha b hb
    rw [h.neg_iff hclass ha hb, ← not_le, ← not_le, h.nonpos_iff hclass hb ha]
  · intro a ha b hb c hc
    rw [h.nonpos_iff hclass ha hb, h.nonpos_iff hclass hb hc, h.nonpos_iff hclass ha hc]
    intro hab hbc
    exact hbc.trans hab

theorem candidateList_single (hclass : p.nbClasses = 1) :
    ∀ e ∈ candidateList ops raw p mem, e.classIndex = Int32.ofNat 0 := by
  intro e he
  obtain ⟨n, -, hcell⟩ := List.mem_filterMap.mp he
  simp only [decodeCell, if_pos hclass, decodeSingle] at hcell
  split at hcell
  · rw [← Option.some.inj hcell]
    rfl
  · cases hcell

/-- With one class, post-processing is non-maximum suppression of the candidates. -/
theorem processIn_selected (ops : FloatOps) (qsort : Qsort) (raw s : Ptr) (p : StaticParam)
    (mem : Mem) (value : Word → ℚ) (harr : Arranged raw s p) (hclass : p.nbClasses = 1)
    (hsorts : qsort.Sorts) (hsign : SignOrdered ops value (candidateList ops raw p mem)) :
    Selected ops p value (candidateList ops raw p mem)
      (processIn ops qsort raw s p mem).detections := by
  rw [processIn_detect ops qsort harr hclass]
  have hclasses : ∀ e ∈ candidateList ops raw p mem, e.classIndex = Int32.ofNat 0 :=
    candidateList_single hclass
  let sorted := qsort.sort (nmsComparator ops 0) (candidateList ops raw p mem)
  have hmem : ∀ e, e ∈ sorted ↔ e ∈ candidateList ops raw p mem :=
    fun e => (qsort.perm _ _).mem_iff
  have horder : sorted.Pairwise fun a b => value b.conf ≤ value a.conf := by
    apply (hsorts _ _ (hsign.consistent hclasses)).imp_of_mem
    intro a b ha hb
    exact (hsign.nonpos_iff hclasses ((hmem a).mp ha) ((hmem b).mp hb)).mp
  have hlive : (sorted.filter (confMarking ops).live).Pairwise fun a b =>
      value b.conf ≤ value a.conf := horder.sublist List.filter_sublist
  refine ⟨fun d hd => (mem_detect hd).1, detect_length, ?_, detect_pairwise, ?_⟩
  · exact hlive.sublist ((List.take_sublist _ _).trans (greedy_sublist _))
  · intro c hc hcounts
    apply greedy_take_accounts (fun a b c hab hbc => hbc.trans hab) hlive
    exact List.mem_filter.mpr ⟨(hmem c).mpr hc, hcounts⟩

/-- A stable sort. -/
def stableSort : Qsort where
  sort compare es :=
    (es.attach.insertionSort fun a b : {e // e ∈ es} => compare a b ≤ 0).map Subtype.val
  perm compare es := by
    have hsorted := (List.perm_insertionSort (fun a b : {e // e ∈ es} => compare a b ≤ 0)
      es.attach).map Subtype.val
    rwa [List.attach_map_subtype_val] at hsorted

theorem stableSort_sorts : stableSort.Sorts := by
  intro compare es h
  let below (a b : {e // e ∈ es}) : Prop := compare a b ≤ 0
  have htrans : IsTrans {e // e ∈ es} below := ⟨fun a b c => h.trans a a.2 b b.2 c c.2⟩
  have htotal : Std.Total below := by
    constructor
    intro a b
    have hflip := h.flip b b.2 a a.2
    unfold below
    omega
  exact List.pairwise_map.mpr (List.pairwise_insertionSort below es.attach)

/-- Three candidates, of which the last is the surest. -/
def surestLast : Mem := fun block word =>
  if block = 0 ∧ word = 16 then 0x40000000 else onesMem block word

/-- It comes first and suppresses the second. -/
theorem processIn_selected_smallGrid :
    (candidateList singleFloat ⟨0, 0⟩ (smallGrid 1 0.6) surestLast).map OutBuffer.conf =
        [0x3F3B26A8, 0x3F3B26A8, 0x3F617BEA] ∧
      (processIn singleFloat stableSort ⟨0, 0⟩ ⟨0, 0⟩ (smallGrid 1 0.6) surestLast).detections.map
        OutBuffer.conf = [0x3F617BEA, 0x3F3B26A8] ∧
      Selected singleFloat (smallGrid 1 0.6) floatValue
        (candidateList singleFloat ⟨0, 0⟩ (smallGrid 1 0.6) surestLast)
        (processIn singleFloat stableSort ⟨0, 0⟩ ⟨0, 0⟩ (smallGrid 1 0.6) surestLast).detections := by
  have hsign : SignOrdered singleFloat floatValue
      (candidateList singleFloat ⟨0, 0⟩ (smallGrid 1 0.6) surestLast) :=
    ⟨by decide +kernel, by decide +kernel⟩
  exact ⟨by decide +kernel, by decide +kernel,
    processIn_selected singleFloat stableSort ⟨0, 0⟩ ⟨0, 0⟩ (smallGrid 1 0.6) surestLast floatValue
      ⟨by decide, by decide⟩ rfl stableSort_sorts hsign⟩

end N6Samples.Benchmark
