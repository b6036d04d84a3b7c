import N6Samples.Benchmark.PostProcess
import Mathlib.Logic.Relation

/-! # Which scratch entries post-processing accesses

Every pass is a run of accesses to entries of the scratch buffer. Candidate extraction
stays below its count of candidates, sorting and suppression below `nb_detect`; the limit
loop goes on to entry `nb_detect`, and always gets there.
-/

namespace N6Samples.Benchmark

open Loop

/-! ## Accesses -/

/-- One access to one of the first `b` entries. -/
inductive Access (s : Ptr) (b : ℕ) (m : Machine) : Machine → Prop
  | read (i : ℕ) (hi : i < b) : Access s b m (m.touch i)
  | write (i field : ℕ) (w : Word) (hi : i < b) (hfield : field < entryWords) :
      Access s b m (m.setField s i field w)

/-- The second machine comes from the first by accesses to the first `b` entries. -/
def Within (s : Ptr) (b : ℕ) : Machine → Machine → Prop := Relation.ReflTransGen (Access s b)

section
variable {ops : FloatOps} {raw s : Ptr} {p : StaticParam} {b i : ℕ} {m m' : Machine}

theorem Within.refl (s : Ptr) (b : ℕ) (m : Machine) : Within s b m m := Relation.ReflTransGen.refl

theorem Within.mono {b' : ℕ} (h : Within s b m m') (hb : b ≤ b') : Within s b' m m' := by
  refine Relation.ReflTransGen.mono ?_ _ _ h
  intro m m' haccess
  cases haccess with
  | read i hi => exact Access.read i (hi.trans_le hb)
  | write i field w hi hfield => exact Access.write i field w (hi.trans_le hb) hfield

theorem Within.touch (h : Within s b m m') (hi : i < b) : Within s b m (m'.touch i) :=
  Relation.ReflTransGen.tail h (Access.read i hi)

theorem Within.setField (h : Within s b m m') (hi : i < b) {field : ℕ} (hfield : field < entryWords)
    (w : Word) : Within s b m (m'.setField s i field w) :=
  Relation.ReflTransGen.tail h (Access.write i field w hi hfield)

theorem Within.setConf (h : Within s b m m') (hi : i < b) (w : Word) :
    Within s b m (m'.setConf s i w) := h.setField hi (by decide) w

theorem Within.setClassIndex (h : Within s b m m') (hi : i < b) (w : Word) :
    Within s b m (m'.setClassIndex s i w) := h.setField hi (by decide) w

theorem Within.setBox (h : Within s b m m') (hi : i < b) (x y w l : Word) :
    Within s b m ((((m'.setXCenter s i x).setYCenter s i y).setWidth s i w).setHeight s i l) :=
  (((h.setField hi (by decide) x).setField hi (by decide) y).setField hi (by decide) w).setField hi
    (by decide) l

theorem Within.setEntry (h : Within s b m m') (hi : i < b) (e : OutBuffer Word) :
    Within s b m (m'.setEntry s i e) :=
  ((h.setBox hi _ _ _ _).setConf hi _).setClassIndex hi _

theorem Within.writeGeometry (h : Within s b m m') (hi : i < b) (row col anch el : ℕ) :
    Within s b m (writeGeometry ops raw s p row col anch el i m') := h.setBox hi _ _ _ _

/-! ## Candidate extraction -/

theorem singleClassCell_within {row col anch : ℕ} {x : Extraction}
    (h : Within s x.countDetect m x.machine) :
    Within s (singleClassCell ops raw s p row col anch x).countDetect m
      (singleClassCell ops raw s p row col anch x).machine := by
  have hnext := h.mono (Nat.le_succ x.countDetect)
  have hlast := Nat.lt_succ_self x.countDetect
  unfold singleClassCell
  simp only
  split
  · exact ((hnext.setConf hlast _).setClassIndex hlast _).writeGeometry hlast row col anch _
  · exact h

theorem multiClassCell_within {row col anch : ℕ} {x : Extraction}
    (h : Within s x.countDetect m x.machine) :
    Within s (multiClassCell ops raw s p row col anch x).countDetect m
      (multiClassCell ops raw s p row col anch x).machine := by
  have hnext := h.mono (Nat.le_succ x.countDetect)
  have hlast := Nat.lt_succ_self x.countDetect
  unfold multiClassCell
  simp only
  split
  · exact ((hnext.writeGeometry hlast row col anch _).setConf hlast _).setClassIndex hlast _
  · exact h

/-- The cells of the grid, in the order of the loops. -/
def gridCell (cell : ℕ → ℕ → ℕ → Extraction → Extraction) (p : StaticParam) (n : ℕ) :
    Extraction → Extraction :=
  cell (n / p.nbAnchors.toNat / p.gridHeight.toNat) (n / p.nbAnchors.toNat % p.gridHeight.toNat)
    (n % p.nbAnchors.toNat)

def gridCells (p : StaticParam) : ℕ := p.gridWidth.toNat * p.gridHeight.toNat * p.nbAnchors.toNat

/-- The three extraction loops are one loop over the cells. -/
theorem extract_eq (cell : ℕ → ℕ → ℕ → Extraction → Extraction) (p : StaticParam) (m : Machine) :
    extract cell p m = forRange 0 (gridCells p) (gridCell cell p) ⟨m, 0, 0⟩ := by
  unfold extract
  rw [forRange_nested _ _ fun row col => forRange 0 p.nbAnchors.toNat fun anch => cell row col anch,
    forRange_nested _ _ fun k => cell (k / p.gridHeight.toNat) (k % p.gridHeight.toNat)]
  rfl

theorem extract_within {cell : ℕ → ℕ → ℕ → Extraction → Extraction}
    (hcell : ∀ row col anch (x : Extraction), Within s x.countDetect m x.machine →
      Within s (cell row col anch x).countDetect m (cell row col anch x).machine) :
    Within s (extract cell p m).countDetect m (extract cell p m).machine := by
  rw [extract_eq]
  exact forRange_preserves (fun x : Extraction => Within s x.countDetect m x.machine)
    (Within.refl s 0 m) fun _ x => hcell _ _ _ x

theorem getNNBoxes_within (raw : Ptr) (m : Machine) :
    Within s (getNNBoxes ops raw s p m).2.nbDetect.toNat m (getNNBoxes ops raw s p m).1 := by
  unfold getNNBoxes
  by_cases hclasses : p.nbClasses = 1
  · simp only [if_pos hclasses]
    exact extract_within fun _ _ _ _ => singleClassCell_within
  · simp only [if_neg hclasses]
    exact extract_within fun _ _ _ _ => multiClassCell_within

/-! ## Sorting, suppression and limit -/

theorem storeEntries_within (es : List (OutBuffer Word)) (i : ℕ) (h : Within s b m m')
    (hend : i + es.length ≤ b) : Within s b m (storeEntries s i es m') := by
  induction es generalizing i m' with
  | nil => exact h
  | cons e es ih =>
      rw [List.length_cons] at hend
      exact ih (i + 1) (h.setEntry (by omega) e) (by omega)

theorem sortEntries_within {n : ℕ} (qsort : Qsort) (k : ℕ) (h : Within s b m m') (hn : n ≤ b) :
    Within s b m (sortEntries ops qsort s k n m') := by
  apply storeEntries_within _ 0 h
  rw [(qsort.perm _ _).length_eq, List.length_map, List.length_range]
  omega

theorem suppressOne_within {j : ℕ} {iouThreshold : Word} (h : Within s b m m') (hi : i < b)
    (hj : j < b) : Within s b m (suppressOne ops s iouThreshold i j m') := by
  have hread := h.touch hj
  unfold suppressOne
  simp only
  split
  · exact hread
  · have hboth := (hread.touch hi).touch hj
    split
    · exact hboth.setConf hj _
    · exact hboth

theorem suppress_within {n : ℕ} {iouThreshold : Word} (h : Within s b m m') (hn : n ≤ b) :
    Within s b m (suppress ops s iouThreshold n m') := by
  refine forRange_invariant (fun _ => Within s b m) h ?_
  intro i m' _ hi hm
  have hread := hm.touch (i := i) (by omega)
  simp only
  split
  · exact hread
  · refine forRange_invariant (fun _ => Within s b m) hread ?_
    intro j m' _ hj hm
    exact suppressOne_within hm (by omega) (by omega)

theorem limitOne_within {y : ℕ} {limit : ℤ} {x : Machine × ℤ} (h : Within s b m x.1) (hy : y < b) :
    Within s b m (limitOne ops s limit y x).1 := by
  have hread := h.touch hy
  unfold limitOne
  simp only
  split
  · split
    · exact hread.setConf hy _
    · exact hread
  · exact h.setConf hy _

theorem limitBoxes_within {n : ℕ} {limit : ℤ} (h : Within s (n + 1) m m') :
    Within s (n + 1) m (limitBoxes ops s limit n m') := by
  refine forRange_invariant (fun _ (x : Machine × ℤ) => Within s (n + 1) m x.1) h ?_
  intro y x _ hy hx
  exact limitOne_within hx (by omega)

theorem nmsFiltering_within (qsort : Qsort) (h : Within s (p.nbDetect.toNat + 1) m m') :
    Within s (p.nbDetect.toNat + 1) m (nmsFiltering ops qsort s p m') := by
  refine forRange_preserves (Within s (p.nbDetect.toNat + 1) m) h ?_
  intro k m' hm
  have hsorted : Within s (p.nbDetect.toNat + 1) m (sortEntries ops qsort s k _ m') :=
    sortEntries_within qsort k hm (Nat.le_succ _)
  exact limitBoxes_within (suppress_within hsorted (Nat.le_succ _))

/-! ## Score filtering and the whole run -/

theorem scoreFiltering_within (h : Within s b m m') (hb : p.nbDetect.toNat ≤ b) :
    Within s b m (scoreFiltering ops s p m').1 := by
  refine forRange_invariant (fun _ (x : Machine × List (OutBuffer Word)) => Within s b m x.1) h ?_
  intro i x _ hi hx
  have hread := hx.touch (i := i) (by omega)
  simp only
  split
  · exact hread
  · exact hread.touch (by omega)

/-- Post-processing accesses no entry after `nb_detect`. -/
theorem processIn_within (qsort : Qsort) (raw : Ptr) (mem : Mem) :
    Within s ((processIn ops qsort raw s p mem).param.nbDetect.toNat + 1) ⟨mem, []⟩
      (processIn ops qsort raw s p mem).machine := by
  let x := getNNBoxes ops raw s p ⟨mem, []⟩
  have hboxes : Within s (x.2.nbDetect.toNat + 1) ⟨mem, []⟩ x.1 :=
    (getNNBoxes_within raw _).mono (Nat.le_succ _)
  exact scoreFiltering_within (nmsFiltering_within qsort hboxes) (Nat.le_succ _)

end

/-! ## What accesses leave behind -/

section
variable {ops : FloatOps} {s : Ptr} {p : StaticParam} {b : ℕ} {m m' : Machine}

theorem Within.touched_lt (h : Within s b m m') (hm : ∀ i ∈ m.touched, i < b) :
    ∀ i ∈ m'.touched, i < b := by
  induction h with
  | refl => exact hm
  | tail _ haccess ih =>
      cases haccess with
      | read i hi => exact List.forall_mem_append.mpr ⟨ih, List.forall_mem_singleton.mpr hi⟩
      | write i field w hi hfield =>
          exact List.forall_mem_append.mpr ⟨ih, List.forall_mem_singleton.mpr hi⟩

/-- What was touched stays recorded. -/
theorem Within.touched_mono (h : Within s b m m') : ∀ i ∈ m.touched, i ∈ m'.touched := by
  induction h with
  | refl => exact fun _ hi => hi
  | tail _ haccess ih =>
      cases haccess with
      | read j hj => exact fun i hi => List.mem_append_left _ (ih i hi)
      | write j field w hj hfield => exact fun i hi => List.mem_append_left _ (ih i hi)

/-! ## The last entry -/

/-- Whatever it decides, the limit loop looks at the entry. -/
theorem limitOne_touches_entry (limit : ℤ) (y : ℕ) (x : Machine × ℤ) :
    y ∈ (limitOne ops s limit y x).1.touched := by
  unfold limitOne
  simp only
  split
  · split
    · simp [Machine.setConf, Machine.setField, Machine.touch]
    · simp [Machine.touch]
  · simp [Machine.setConf, Machine.setField, Machine.touch]

/-- One iteration too many. -/
theorem limitBoxes_touches_end (limit : ℤ) (n : ℕ) (m : Machine) :
    n ∈ (limitBoxes ops s limit n m).touched := by
  unfold limitBoxes
  rw [forRange_succ, Nat.zero_add]
  exact limitOne_touches_entry limit n _

/-- The limit loop of the last class is the end of the pass. -/
theorem nmsFiltering_last (ops : FloatOps) (qsort : Qsort) (s : Ptr) (m : Machine)
    (hclasses : 1 ≤ p.nbClasses) :
    ∃ m', nmsFiltering ops qsort s p m =
      limitBoxes ops s p.maxBoxesLimit p.nbDetect.toNat m' := by
  obtain ⟨last, hlast⟩ : ∃ last, p.nbClasses.toNat = last + 1 :=
    ⟨p.nbClasses.toNat - 1, by omega⟩
  unfold nmsFiltering
  rw [hlast, forRange_succ]
  exact ⟨_, rfl⟩

theorem nmsFiltering_touches_end (qsort : Qsort) (hclasses : 1 ≤ p.nbClasses) :
    p.nbDetect.toNat ∈ (nmsFiltering ops qsort s p m).touched := by
  rcases nmsFiltering_last ops qsort s m hclasses with ⟨m', hlast⟩
  rw [hlast]
  exact limitBoxes_touches_end _ _ _

/-- Post-processing always accesses entry `nb_detect`. -/
theorem processIn_touches_end (qsort : Qsort) (raw : Ptr) (mem : Mem)
    (hclasses : 1 ≤ p.nbClasses) :
    (processIn ops qsort raw s p mem).param.nbDetect.toNat ∈
      (processIn ops qsort raw s p mem).machine.touched := by
  let x := getNNBoxes ops raw s p ⟨mem, []⟩
  have hend : x.2.nbDetect.toNat ∈ (nmsFiltering ops qsort s x.2 x.1).touched :=
    nmsFiltering_touches_end qsort hclasses
  exact (scoreFiltering_within (Within.refl s _ _) le_rfl).touched_mono _ hend

end

end N6Samples.Benchmark
