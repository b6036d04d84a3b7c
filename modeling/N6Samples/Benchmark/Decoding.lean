import N6Samples.Benchmark.InPlace
import N6Samples.Benchmark.Suppression

/-! # Candidates as decoded cells

What extraction writes is a list computed from the raw detections alone, whether the
candidates go to a buffer of their own or over the detections they are read from.
-/

namespace N6Samples.Benchmark

open Loop

/-! ## Decoding a raw detection -/

/-- `anch_stride`. -/
def anchStride (p : StaticParam) : ℕ := (p.nbClasses + classProbOff).toNat

/-- The box of the raw detection at word `el`, with a score and a class. -/
def decodeBox (ops : FloatOps) (raw : Ptr) (p : StaticParam) (mem : Mem) (row col anch el : ℕ)
    (conf : Word) (classIndex : Int32) : OutBuffer Word where
  xCenter := ops.mul (ops.add (ops.lit col) (ops.sigmoid (mem.read raw (el + xCenterOff))))
    (ops.div (ops.lit 1) (ops.lit p.gridWidth))
  yCenter := ops.mul (ops.add (ops.lit row) (ops.sigmoid (mem.read raw (el + yCenterOff))))
    (ops.div (ops.lit 1) (ops.lit p.gridHeight))
  width := ops.mul (ops.mul (mem.read p.pAnchors (2 * anch))
    (ops.expf (mem.read raw (el + widthRelOff)))) (ops.div (ops.lit 1) (ops.lit p.gridWidth))
  height := ops.mul (ops.mul (mem.read p.pAnchors (2 * anch + 1))
    (ops.expf (mem.read raw (el + heightRelOff)))) (ops.div (ops.lit 1) (ops.lit p.gridHeight))
  conf := conf
  classIndex := classIndex

def decodeSingle (ops : FloatOps) (raw : Ptr) (p : StaticParam) (mem : Mem)
    (row col anch el : ℕ) : Option (OutBuffer Word) :=
  let objectness := mem.read raw (el + objectnessOff)
  if ops.le (objectnessThreshold ops p.confThreshold) objectness then
    some (decodeBox ops raw p mem row col anch el (ops.sigmoid objectness) 0)
  else none

/-- The best class score times the objectness, and the index of the class. -/
def classScore (ops : FloatOps) (raw : Ptr) (p : StaticParam) (mem : Mem) (el : ℕ) : Word × ℕ :=
  let best := maxiP ops mem raw (el + classProbOff) p.nbClasses.toNat
  let sumf := forRange 0 p.nbClasses.toNat
    (fun i sum => ops.add sum (ops.expf (mem.read raw (el + classProbOff + i)))) (ops.lit 0)
  (ops.mul (ops.div (ops.expf best.1) sumf)
    (ops.sigmoid (mem.read raw (el + objectnessOff))), best.2)

def decodeMulti (ops : FloatOps) (raw : Ptr) (p : StaticParam) (mem : Mem)
    (row col anch el : ℕ) : Option (OutBuffer Word) :=
  let score := classScore ops raw p mem el
  if ops.le p.confThreshold score.1 then
    some (decodeBox ops raw p mem row col anch el score.1
      (Int32.ofBitVec (BitVec.ofNat 32 score.2)))
  else none

def decodeCell (ops : FloatOps) (raw : Ptr) (p : StaticParam) (mem : Mem) (n : ℕ) :
    Option (OutBuffer Word) :=
  let decode := if p.nbClasses = 1 then decodeSingle else decodeMulti
  decode ops raw p mem (n / p.nbAnchors.toNat / p.gridHeight.toNat)
    (n / p.nbAnchors.toNat % p.gridHeight.toNat) (n % p.nbAnchors.toNat) (anchStride p * n)

/-- The candidates of a network output, in the order of its cells. -/
def candidateList (ops : FloatOps) (raw : Ptr) (p : StaticParam) (mem : Mem) :
    List (OutBuffer Word) :=
  (List.range (gridCells p)).filterMap (decodeCell ops raw p mem)

/-! ## Where the candidates go -/

/-- The anchors are out of the way, and the scratch buffer is either somewhere else than the
raw detections or starts where they start, with detections no shorter than its entries. -/
structure Arranged (raw s : Ptr) (p : StaticParam) : Prop where
  anchors : p.pAnchors.block ≠ s.block
  cells : raw.block ≠ s.block ∨ raw = s ∧ entryWords ≤ anchStride p

variable {ops : FloatOps} {raw s : Ptr} {p : StaticParam} {mem : Mem} {m m' : Machine}
  {i n field word : ℕ}

theorem read_setField_of_block (h : raw.block ≠ s.block) (w : Word) :
    (m.setField s i field w).mem.read raw word = m.mem.read raw word := by
  simp only [Machine.setField, Machine.touch, Mem.read, Mem.write, Function.update_of_ne h]

namespace Arranged

theorem read_anchors (h : Arranged raw s p) (w : Word) :
    (m.setField s i field w).mem.read p.pAnchors word = m.mem.read p.pAnchors word :=
  read_setField_of_block h.anchors w

theorem read_raw (h : Arranged raw s p)
    (hother : entryWords ≤ anchStride p → word ≠ entryWords * i + field) (w : Word) :
    (m.setField s i field w).mem.read raw word = m.mem.read raw word := by
  rcases h.cells with hblock | ⟨rfl, hstride⟩
  · exact read_setField_of_block hblock w
  · rw [Machine.read_setField, if_neg (hother hstride)]

/-- The words of a cell are read before entries that are not past it reach them. -/
theorem read_cell (h : Arranged raw s p) (hi : i ≤ n) (hfield : field < word) (w : Word) :
    (m.setField s i field w).mem.read raw (anchStride p * n + word) =
      m.mem.read raw (anchStride p * n + word) := by
  apply h.read_raw
  intro hstride
  have hcell := Nat.mul_le_mul hstride hi
  omega

theorem read_next (h : Arranged raw s p) (hi : i ≤ n) (hfield : field < entryWords)
    (hword : anchStride p * (n + 1) ≤ word) (w : Word) :
    (m.setField s i field w).mem.read raw word = m.mem.read raw word := by
  apply h.read_raw
  intro hstride
  have hcell : entryWords * i + entryWords ≤ anchStride p * (n + 1) :=
    Nat.mul_le_mul hstride (Nat.succ_le_succ hi)
  omega

/-- With one class, a detection is as long as an entry, and only a write to the same word of
the same cell could be seen. -/
theorem read_single (h : Arranged raw s p) (hclass : p.nbClasses = 1)
    (hfield : field < entryWords) (hword : word < entryWords) (hne : word ≠ field) (w : Word) :
    (m.setField s i field w).mem.read raw (anchStride p * n + word) =
      m.mem.read raw (anchStride p * n + word) := by
  apply h.read_raw
  intro _
  have hstride : anchStride p = entryWords := by
    unfold anchStride
    rw [hclass]
    rfl
  rw [hstride]
  unfold entryWords at hfield hword ⊢
  omega

end Arranged

/-! ## Writing one candidate -/

theorem writeGeometry_entry (h : Arranged raw s p) (hi : i ≤ n) {el : ℕ}
    (hel : el = anchStride p * n)
    (hcell : ∀ word < 4, m.mem.read raw (el + word) = mem.read raw (el + word))
    (hanchors : ∀ word, m.mem.read p.pAnchors word = mem.read p.pAnchors word)
    (row col anch : ℕ) :
    (writeGeometry ops raw s p row col anch el i m).entry s i =
      decodeBox ops raw p mem row col anch el (m.conf s i) (m.entry s i).classIndex := by
  subst hel
  unfold writeGeometry
  simp only [Machine.setXCenter, Machine.setYCenter, Machine.setWidth, Machine.setHeight,
    xCenterOff, yCenterOff, widthRelOff, heightRelOff, h.read_anchors,
    h.read_cell hi (by decide : 0 < 1), h.read_cell hi (by decide : 0 < 2),
    h.read_cell hi (by decide : 1 < 2), h.read_cell hi (by decide : 0 < 3),
    h.read_cell hi (by decide : 1 < 3), h.read_cell hi (by decide : 2 < 3),
    hcell 0 (by decide), hcell 1 (by decide), hcell 2 (by decide), hcell 3 (by decide), hanchors]
  simp [Machine.entry, Machine.conf, Machine.read_setField, entryWords, decodeBox, xCenterOff,
    yCenterOff, widthRelOff, heightRelOff]

/-- Writes into one entry. -/
def Edits (s : Ptr) (i : ℕ) : Machine → Machine → Prop :=
  Relation.ReflTransGen fun m m' => ∃ field < entryWords, ∃ w, m' = m.setField s i field w

theorem Edits.setField (h : Edits s i m m') (hfield : field < entryWords) (w : Word) :
    Edits s i m (m'.setField s i field w) :=
  Relation.ReflTransGen.tail h ⟨field, hfield, w, rfl⟩

theorem Edits.writeGeometry (h : Edits s i m m') (row col anch el : ℕ) :
    Edits s i m (writeGeometry ops raw s p row col anch el i m') :=
  (((h.setField (by decide) _).setField (by decide) _).setField (by decide) _).setField
    (by decide) _

theorem Edits.entry (h : Edits s i m m') {k : ℕ} (hk : k ≠ i) : m'.entry s k = m.entry s k := by
  induction h with
  | refl => rfl
  | tail _ hstep ih =>
      obtain ⟨field, hfield, w, rfl⟩ := hstep
      rw [Machine.entry_setField_of_ne _ s hk hfield, ih]

theorem Edits.read_anchors (h : Edits s i m m') (harr : Arranged raw s p) (word : ℕ) :
    m'.mem.read p.pAnchors word = m.mem.read p.pAnchors word := by
  induction h with
  | refl => rfl
  | tail _ hstep ih =>
      obtain ⟨field, -, w, rfl⟩ := hstep
      rw [harr.read_anchors, ih]

theorem Edits.read_next (h : Edits s i m m') (harr : Arranged raw s p) (hi : i ≤ n)
    (hword : anchStride p * (n + 1) ≤ word) : m'.mem.read raw word = m.mem.read raw word := by
  induction h with
  | refl => rfl
  | tail _ hstep ih =>
      obtain ⟨field, hfield, w, rfl⟩ := hstep
      rw [harr.read_next hi hfield hword, ih]

/-! ## The extraction loops -/

/-- Before cell `n`, the scratch buffer holds the candidates up to there, and the cells from
there on are as the network left them. -/
structure Extracted (raw s : Ptr) (p : StaticParam) (mem : Mem)
    (decode : ℕ → Option (OutBuffer Word)) (n : ℕ) (x : Extraction) : Prop where
  offset : x.elOffset = anchStride p * n
  cells : ∀ word, anchStride p * n ≤ word → x.machine.mem.read raw word = mem.read raw word
  anchors : ∀ word, x.machine.mem.read p.pAnchors word = mem.read p.pAnchors word
  candidates : scratchEntries s x.countDetect x.machine = (List.range n).filterMap decode

variable {decode : ℕ → Option (OutBuffer Word)} {x : Extraction}

theorem filterMap_range_succ (decode : ℕ → Option (OutBuffer Word)) (n : ℕ) :
    (List.range (n + 1)).filterMap decode =
      (List.range n).filterMap decode ++ (decode n).toList := by
  rw [List.range_succ, List.filterMap_append]
  cases h : decode n <;> simp [h]

theorem scratchEntries_succ (s : Ptr) (n : ℕ) (m : Machine) :
    scratchEntries s (n + 1) m = scratchEntries s n m ++ [m.entry s n] := by
  rw [scratchEntries, List.range_succ, List.map_append]
  rfl

namespace Extracted

theorem start (raw s : Ptr) (p : StaticParam) (mem : Mem)
    (decode : ℕ → Option (OutBuffer Word)) : Extracted raw s p mem decode 0 ⟨⟨mem, []⟩, 0, 0⟩ :=
  ⟨rfl, fun _ _ => rfl, fun _ => rfl, rfl⟩

theorem count_le (h : Extracted raw s p mem decode n x) : x.countDetect ≤ n := by
  have hlength := congrArg List.length h.candidates
  have hcells := List.length_filterMap_le decode (List.range n)
  rw [scratchEntries, List.length_map, List.length_range] at hlength
  rw [List.length_range] at hcells
  omega

theorem skip (h : Extracted raw s p mem decode n x) (hcell : decode n = none) :
    Extracted raw s p mem decode (n + 1)
      ⟨x.machine, x.countDetect, x.elOffset + anchStride p⟩ := by
  refine ⟨?_, ?_, h.anchors, ?_⟩
  · rw [h.offset]
    rfl
  · intro word hword
    exact h.cells word ((Nat.mul_le_mul_left _ (Nat.le_succ n)).trans hword)
  · rw [filterMap_range_succ, hcell, Option.toList_none, List.append_nil]
    exact h.candidates

theorem write (h : Extracted raw s p mem decode n x) (harr : Arranged raw s p) {m' : Machine}
    (hedits : Edits s x.countDetect x.machine m')
    (hcell : decode n = some (m'.entry s x.countDetect)) :
    Extracted raw s p mem decode (n + 1)
      ⟨m', x.countDetect + 1, x.elOffset + anchStride p⟩ := by
  refine ⟨?_, ?_, ?_, ?_⟩
  · rw [h.offset]
    rfl
  · intro word hword
    exact (hedits.read_next harr h.count_le hword).trans
      (h.cells word ((Nat.mul_le_mul_left _ (Nat.le_succ n)).trans hword))
  · intro word
    exact (hedits.read_anchors harr word).trans (h.anchors word)
  · have hbefore : scratchEntries s x.countDetect m' =
        scratchEntries s x.countDetect x.machine := by
      apply List.map_congr_left
      intro k hk
      exact hedits.entry (Nat.ne_of_lt (List.mem_range.mp hk))
    rw [scratchEntries_succ, hbefore, h.candidates, filterMap_range_succ, hcell,
      Option.toList_some]

/-- Cell `n` can still be read. -/
theorem read (h : Extracted raw s p mem decode n x) {word : ℕ} (hword : x.elOffset ≤ word) :
    x.machine.mem.read raw word = mem.read raw word := by
  rw [h.offset] at hword
  exact h.cells word hword

end Extracted

theorem singleClassCell_extracted (hclass : p.nbClasses = 1) (harr : Arranged raw s p)
    {row col anch : ℕ} (h : Extracted raw s p mem decode n x)
    (hdecode : decode n = decodeSingle ops raw p mem row col anch x.elOffset) :
    Extracted raw s p mem decode (n + 1) (singleClassCell ops raw s p row col anch x) := by
  unfold decodeSingle objectnessThreshold at hdecode
  unfold singleClassCell
  simp only [h.read (Nat.le_add_right _ objectnessOff)] at hdecode ⊢
  split
  case isTrue hcandidate =>
    rw [if_pos hcandidate] at hdecode
    let i := x.countDetect
    let score := ops.sigmoid (mem.read raw (x.elOffset + objectnessOff))
    let m := (x.machine.setConf s i score).setClassIndex s i 0
    have hedits : Edits s i x.machine m :=
      (Edits.setField Relation.ReflTransGen.refl (by decide) _).setField (by decide) _
    -- score and class are written first, behind the words of the box
    have hcell : ∀ word < 4, m.mem.read raw (x.elOffset + word) =
        mem.read raw (x.elOffset + word) := by
      intro word hword
      have hentry : word < entryWords ∧ word ≠ 4 ∧ word ≠ 5 := by
        unfold entryWords
        omega
      rw [← h.read (Nat.le_add_right _ word), h.offset]
      exact (harr.read_single hclass (by decide) hentry.1 hentry.2.2 _).trans
        (harr.read_single hclass (by decide) hentry.1 hentry.2.1 _)
    have hbox : (writeGeometry ops raw s p row col anch x.elOffset i m).entry s i =
        decodeBox ops raw p mem row col anch x.elOffset (m.conf s i) (m.entry s i).classIndex :=
      writeGeometry_entry harr h.count_le h.offset hcell
        (fun word => (hedits.read_anchors harr word).trans (h.anchors word)) row col anch
    have hconf : m.conf s i = score := by
      simp [m, Machine.conf, Machine.setConf, Machine.setClassIndex, Machine.read_setField,
        entryWords]
    have hindex : (m.entry s i).classIndex = 0 := by
      simp [m, Machine.entry, Machine.setClassIndex, Machine.read_setField]
    rw [hconf, hindex] at hbox
    rw [← hbox] at hdecode
    exact h.write harr (hedits.writeGeometry row col anch _) hdecode
  case isFalse hcandidate =>
    rw [if_neg hcandidate] at hdecode
    exact h.skip hdecode

/-! ### More than one class -/

theorem maxiP_congr {mem' : Mem} {el len : ℕ}
    (h : ∀ word, el ≤ word → mem'.read raw word = mem.read raw word) :
    maxiP ops mem' raw el len = maxiP ops mem raw el len := by
  unfold maxiP
  rw [h el (Nat.le_refl el)]
  apply forRange_congr
  intro j _
  rw [h _ (Nat.le_add_right _ _)]

theorem classScore_congr {mem' : Mem} {el : ℕ}
    (h : ∀ word, el ≤ word → mem'.read raw word = mem.read raw word) :
    classScore ops raw p mem' el = classScore ops raw p mem el := by
  have hclasses : ∀ word, el + classProbOff ≤ word → mem'.read raw word = mem.read raw word :=
    fun word hword => h word ((Nat.le_add_right _ _).trans hword)
  have hsum : forRange 0 p.nbClasses.toNat (fun i sum =>
        ops.add sum (ops.expf (mem'.read raw (el + classProbOff + i)))) (ops.lit 0) =
      forRange 0 p.nbClasses.toNat (fun i sum =>
        ops.add sum (ops.expf (mem.read raw (el + classProbOff + i)))) (ops.lit 0) := by
    apply forRange_congr
    intro j _
    rw [hclasses _ (Nat.le_add_right _ _)]
  unfold classScore
  simp only [maxiP_congr hclasses, hsum, h _ (Nat.le_add_right el objectnessOff)]

theorem multiClassCell_extracted (harr : Arranged raw s p) {row col anch : ℕ}
    (h : Extracted raw s p mem decode n x)
    (hdecode : decode n = decodeMulti ops raw p mem row col anch x.elOffset) :
    Extracted raw s p mem decode (n + 1) (multiClassCell ops raw s p row col anch x) := by
  have hscore : classScore ops raw p mem x.elOffset =
      classScore ops raw p x.machine.mem x.elOffset :=
    (classScore_congr fun word hword => h.read hword).symm
  unfold decodeMulti at hdecode
  rw [hscore] at hdecode
  unfold multiClassCell
  simp only at hdecode ⊢
  split
  case isTrue hcandidate =>
    let i := x.countDetect
    let score := classScore ops raw p x.machine.mem x.elOffset
    let m := writeGeometry ops raw s p row col anch x.elOffset i x.machine
    have hedits : Edits s i x.machine m := Edits.writeGeometry Relation.ReflTransGen.refl _ _ _ _
    have hbox : m.entry s i = decodeBox ops raw p mem row col anch x.elOffset
        (x.machine.conf s i) (x.machine.entry s i).classIndex :=
      writeGeometry_entry harr h.count_le h.offset
        (fun word _ => h.read (Nat.le_add_right _ word)) h.anchors row col anch
    have hcond : ops.le p.confThreshold score.1 = true := hcandidate
    rw [if_pos hcond] at hdecode
    have hentry : ((m.setConf s i score.1).setClassIndex s i (BitVec.ofNat 32 score.2)).entry s i =
        decodeBox ops raw p mem row col anch x.elOffset score.1
          (Int32.ofBitVec (BitVec.ofNat 32 score.2)) := by
      rw [Machine.entry_setClassIndex, Function.update_self, Machine.entry_setConf,
        Function.update_self, hbox]
      rfl
    rw [← hentry] at hdecode
    exact h.write harr ((hedits.setField (by decide) _).setField (by decide) _) hdecode
  case isFalse hcandidate =>
    let score := classScore ops raw p x.machine.mem x.elOffset
    have hcond : ¬ ops.le p.confThreshold score.1 = true := hcandidate
    rw [if_neg hcond] at hdecode
    exact h.skip hdecode

/-! ### The whole grid -/

theorem extract_extracted {cell : ℕ → ℕ → ℕ → Extraction → Extraction}
    (hcell : ∀ n x, Extracted raw s p mem decode n x →
      Extracted raw s p mem decode (n + 1) (gridCell cell p n x)) :
    Extracted raw s p mem decode (gridCells p) (extract cell p ⟨mem, []⟩) := by
  have hloop : Extracted raw s p mem decode (0 + gridCells p)
      (forRange 0 (gridCells p) (gridCell cell p) ⟨⟨mem, []⟩, 0, 0⟩) := by
    apply forRange_invariant (Extracted raw s p mem decode) (Extracted.start raw s p mem decode)
    intro n x _ _ hx
    exact hcell n x hx
  rw [Nat.zero_add] at hloop
  rwa [extract_eq]

/-- Extraction leaves the candidates of the network output, and counts them. -/
theorem getNNBoxes_candidates (ops : FloatOps) (harr : Arranged raw s p) (mem : Mem) :
    (getNNBoxes ops raw s p ⟨mem, []⟩).2.nbDetect = (candidateList ops raw p mem).length ∧
      scratchEntries s (candidateList ops raw p mem).length
        (getNNBoxes ops raw s p ⟨mem, []⟩).1 = candidateList ops raw p mem := by
  suffices h : ∃ x : Extraction, Extracted raw s p mem (decodeCell ops raw p mem) (gridCells p) x ∧
      getNNBoxes ops raw s p ⟨mem, []⟩ = (x.machine, { p with nbDetect := x.countDetect }) by
    obtain ⟨x, hx, hboxes⟩ := h
    have hcandidates : scratchEntries s x.countDetect x.machine = candidateList ops raw p mem :=
      hx.candidates
    have hlength := congrArg List.length hcandidates
    rw [scratchEntries, List.length_map, List.length_range] at hlength
    rw [hboxes, ← hlength]
    exact ⟨rfl, hcandidates⟩
  unfold getNNBoxes
  by_cases hclass : p.nbClasses = 1
  · simp only [if_pos hclass]
    refine ⟨extract (singleClassCell ops raw s p) p ⟨mem, []⟩, extract_extracted ?_, rfl⟩
    intro n x hx
    apply singleClassCell_extracted hclass harr hx
    simp only [decodeCell, if_pos hclass, hx.offset]
  · simp only [if_neg hclass]
    refine ⟨extract (multiClassCell ops raw s p) p ⟨mem, []⟩, extract_extracted ?_, rfl⟩
    intro n x hx
    apply multiClassCell_extracted harr hx
    simp only [decodeCell, if_neg hclass, hx.offset]

end N6Samples.Benchmark
