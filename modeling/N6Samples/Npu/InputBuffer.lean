import N6Samples.Npu.EcLoader

/-! # The input buffer of the network (`network.c`, `network_ecblobs.h`)

The blob of the network names the buffer of its input. It is copied once and moved before each
inference, so that it names the buffer that was set last and no earlier one.
-/

namespace N6Samples.Npu

open Relocation

/-! ## The functions of the network -/

/-- `LL_ATON_User_IO_Result_t`. -/
inductive UserIoResult where
  | noError
  | wrongAlign
  | wrongSize
  | wrongIndex
deriving DecidableEq

/-- `_ec_blob_Default_1`, the entry of `_ec_blob_Default_1_prev_base_addrs`, and
`_mem_pool__user_io_input_0_Default`. -/
structure Instance where
  blob : Blob
  prevBaseAddr : BitVec 32
  userInput : BitVec 32

/-- `_ec_blob_Default_1_reloc_table_ptr`. -/
def relocTablePtr (binary : Bytes) : Bytes := fun i => binary (24 + i)

/-- `_ec_blob_Default_1__user_io_input_0_RELOC_IDX`. -/
def relocIdx : BitVec 32 := 0

/-- `LL_ATON_Set_User_Input_Buffer_Default`. -/
def setUserInputBuffer (num buffer size : BitVec 32) (s : Instance) : UserIoResult × Instance :=
  if num = 0 then
    if buffer % 32 ≠ 0 then (.wrongAlign, s)
    else if size < 150528 then (.wrongSize, s)
    else (.noError, { s with userInput := buffer })
  else (.wrongIndex, s)

/-- `LL_ATON_EC_Network_Init_Default`. -/
def ecNetworkInit (binary : Bytes) (s : Instance) : Bool × Instance :=
  let copied := ecCopyBlob (some s.blob) binary (some 11602)
  (copied.ok, { s with prevBaseAddr := 0, blob := copied.blob.getD s.blob })

/-- `LL_ATON_EC_Inference_Init_Default`. -/
def ecInferenceInit (binary : Bytes) (s : Instance) : Bool × Instance :=
  let r := ecReloc (some (relocTablePtr binary)) s.blob.words relocIdx s.userInput s.prevBaseAddr
  (r.ok, { s with blob := ⟨s.blob.address, r.words⟩, prevBaseAddr := r.prevBase })

inductive Call where
  | setUserInputBuffer (num buffer size : BitVec 32)
  | networkInit
  | inferenceInit
deriving DecidableEq

def runCall (binary : Bytes) (s : Instance) : Call → Instance
  | .setUserInputBuffer num buffer size => (setUserInputBuffer num buffer size s).2
  | .networkInit => (ecNetworkInit binary s).2
  | .inferenceInit => (ecInferenceInit binary s).2

/-! ## What the blob should hold -/

/-- The buffer of a call that sets one: aligned to a cache line and large enough. -/
def Call.buffer? : Call → Option (BitVec 32)
  | .setUserInputBuffer num buffer size =>
      if num = 0 ∧ buffer % 32 = 0 ∧ 150528 ≤ size then some buffer else none
  | .networkInit | .inferenceInit => none

/-- The buffer that was set last. -/
def latestInput (first : BitVec 32) (calls : List Call) : BitVec 32 :=
  (calls.reverse.findSome? Call.buffer?).getD first

/-- The words of the blob in the binary. -/
def blobWord (binary : Bytes) (i : ℕ) : BitVec 32 :=
  fileEntry binary ((fileEntry binary 16).toNat + 4 * i)

/-- The number of words that `ec_copy_blob` writes. -/
def blobLength (binary : Bytes) : ℕ := 2 + (blobWord binary 1 * 4).toNat / 4

/-- How often the table names a word of the blob. -/
def inputPlaces (binary : Bytes) (i : ℕ) : ℕ :=
  (places (relocTablePtr binary) relocIdx).count i

/-- Every word names the buffer it was moved to. -/
structure Moved (binary : Bytes) (address : ℕ) (s : Instance) : Prop where
  address : s.blob.address = address
  words : ∀ i < blobLength binary,
    s.blob.words i = blobWord binary i + inputPlaces binary i • s.prevBaseAddr

variable {binary : Bytes} {s t : Instance} {address : ℕ}

theorem latestInput_concat (first : BitVec 32) (calls : List Call) (c : Call) :
    latestInput first (calls ++ [c]) = c.buffer?.getD (latestInput first calls) := by
  unfold latestInput
  rw [List.reverse_concat, List.findSome?_cons]
  cases c.buffer? <;> rfl

theorem copyWords_eq {i : ℕ} (hi : i < blobLength binary) (words : ℕ → BitVec 32) :
    copyWords binary (fileEntry binary 16).toNat words i = blobWord binary i := by
  unfold copyWords blobWord
  by_cases hzero : i = 0
  · rw [if_pos hzero, hzero]
    rfl
  · by_cases hone : i = 1
    · rw [if_neg hzero, if_pos hone, hone]
    · have hcopied : i < 2 + (fileEntry binary ((fileEntry binary 16).toNat + 4) * 4).toNat / 4 :=
        hi
      have hoffset : (fileEntry binary 16).toNat + 8 + 4 * (i - 2) =
          (fileEntry binary 16).toNat + 4 * i := by omega
      rw [if_neg hzero, if_neg hone, if_pos hcopied, hoffset]

/-! ## The calls -/

/-- Once the blob has been copied, copying it again brings the words of the binary back. -/
theorem ecNetworkInit_moved (hload : (ecNetworkInit binary s).1 = true)
    (haddress : t.blob.address = s.blob.address) :
    Moved binary s.blob.address (ecNetworkInit binary t).2 := by
  have hloadable : Loadable binary t.blob.address 11602 := by
    rw [haddress]
    exact loadable_of_ecCopyBlob hload
  unfold ecNetworkInit
  rw [ecCopyBlob_of_loadable hloadable]
  refine ⟨haddress, fun i hi => ?_⟩
  rw [nsmul_zero, add_zero]
  exact copyWords_eq hi _

/-- An inference moves the words to the buffer that is set. -/
theorem ecInferenceInit_moved (h : Moved binary address s) :
    Moved binary address (ecInferenceInit binary s).2 ∧
      (ecInferenceInit binary s).2.userInput = s.userInput ∧
      (RelocAligned (relocTablePtr binary) relocIdx → (ecInferenceInit binary s).1 = true ∧
        (ecInferenceInit binary s).2.prevBaseAddr = s.userInput) := by
  obtain ⟨ok, present, heq, hbase, hok⟩ := ecReloc_spec (relocTablePtr binary) s.blob.words
    relocIdx s.userInput s.prevBaseAddr
  unfold ecInferenceInit
  rw [heq]
  refine ⟨⟨h.address, fun i hi => ?_⟩, rfl, fun halign => ⟨hok halign, hbase (hok halign)⟩⟩
  change relocate _ _ _ i = _ + inputPlaces binary i • present
  rw [relocate_apply, h.words i hi, inputPlaces, nsmul_sub]
  abel

theorem setUserInputBuffer_moved (num buffer size : BitVec 32) (h : Moved binary address s) :
    Moved binary address (setUserInputBuffer num buffer size s).2 ∧
      (setUserInputBuffer num buffer size s).2.userInput =
        (Call.setUserInputBuffer num buffer size).buffer?.getD s.userInput := by
  have hbuffer : (Call.setUserInputBuffer num buffer size).buffer? =
      if num = 0 ∧ buffer % 32 = 0 ∧ 150528 ≤ size then some buffer else none := rfl
  rw [hbuffer]
  unfold setUserInputBuffer
  by_cases hnum : num = 0
  · by_cases halign : buffer % 32 = 0
    · by_cases hsize : size < 150528
      · have hrefused : ¬ (num = 0 ∧ buffer % 32 = 0 ∧ 150528 ≤ size) :=
          fun haccepted => BitVec.not_le.mpr hsize haccepted.2.2
        rw [if_pos hnum, if_neg (not_not.mpr halign), if_pos hsize, if_neg hrefused]
        exact ⟨h, rfl⟩
      · rw [if_pos hnum, if_neg (not_not.mpr halign), if_neg hsize,
          if_pos ⟨hnum, halign, BitVec.not_lt.mp hsize⟩]
        exact ⟨⟨h.address, h.words⟩, rfl⟩
    · rw [if_pos hnum, if_pos halign, if_neg fun haccepted => halign haccepted.2.1]
      exact ⟨h, rfl⟩
  · rw [if_neg hnum, if_neg fun haccepted => hnum haccepted.1]
    exact ⟨h, rfl⟩

theorem runCall_moved (hload : (ecNetworkInit binary s).1 = true)
    (h : Moved binary s.blob.address t) (c : Call) :
    Moved binary s.blob.address (runCall binary t c) ∧
      (runCall binary t c).userInput = c.buffer?.getD t.userInput := by
  cases c with
  | setUserInputBuffer num buffer size => exact setUserInputBuffer_moved num buffer size h
  | networkInit => exact ⟨ecNetworkInit_moved hload h.address, rfl⟩
  | inferenceInit => exact ⟨(ecInferenceInit_moved h).1, (ecInferenceInit_moved h).2.1⟩

/-- Whatever was called since the network was initialised, an inference finds the blob of the
binary with the address of the buffer that was set last. -/
theorem ecInferenceInit_names_input (binary : Bytes) (s : Instance) (calls : List Call)
    (hload : (ecNetworkInit binary s).1 = true)
    (halign : RelocAligned (relocTablePtr binary) relocIdx) :
    (ecInferenceInit binary (calls.foldl (runCall binary) (ecNetworkInit binary s).2)).1 = true ∧
    ∀ i < blobLength binary,
      (ecInferenceInit binary
        (calls.foldl (runCall binary) (ecNetworkInit binary s).2)).2.blob.words i =
        blobWord binary i + inputPlaces binary i • latestInput s.userInput calls := by
  have hrun : Moved binary s.blob.address
        (calls.foldl (runCall binary) (ecNetworkInit binary s).2) ∧
      (calls.foldl (runCall binary) (ecNetworkInit binary s).2).userInput =
        latestInput s.userInput calls := by
    induction calls using List.reverseRecOn with
    | nil => exact ⟨ecNetworkInit_moved hload rfl, rfl⟩
    | append_singleton calls c ih =>
        obtain ⟨hmoved, hinput⟩ := ih
        have hstep := runCall_moved hload hmoved c
        rw [List.foldl_concat, latestInput_concat, ← hinput]
        exact hstep
  obtain ⟨hmoved, -, hready⟩ := ecInferenceInit_moved hrun.1
  obtain ⟨hok, hbase⟩ := hready halign
  refine ⟨hok, fun i hi => ?_⟩
  rw [hmoved.words i hi, hbase, hrun.2]

/-- The table of the network, for a blob of six words that names its input twice. -/
def shortBinary : Bytes := ofDoubleWords
  [0x00000018ecbf0030, 0x0000000000000000, 0x0000000000000048, 0x0000001800000001,
    0x0000001000000002, 0x0000000300000001, 0x6f695f726573755f, 0x305f7475706e695f,
    0x0000000000000000, 0x00000006ca057a7a, 0x0000000000800241, 0x0000000000005c02,
    0x0000000c00800121]

/-- Two frames, and a buffer that is refused. -/
def twoFrames : List Call :=
  [.setUserInputBuffer 0 0x34100000 150528, .inferenceInit,
    .setUserInputBuffer 0 0x34200000 150528, .setUserInputBuffer 0 0x34300004 150528]

theorem ecInferenceInit_names_input_twoFrames :
    (ecInferenceInit shortBinary (twoFrames.foldl (runCall shortBinary)
      (ecNetworkInit shortBinary ⟨⟨0x34000000, fun _ => 0⟩, 0, 0⟩).2)).1 = true ∧
    ∀ i < blobLength shortBinary,
      (ecInferenceInit shortBinary (twoFrames.foldl (runCall shortBinary)
        (ecNetworkInit shortBinary ⟨⟨0x34000000, fun _ => 0⟩, 0, 0⟩).2)).2.blob.words i =
        blobWord shortBinary i + inputPlaces shortBinary i • latestInput 0 twoFrames :=
  ecInferenceInit_names_input shortBinary ⟨⟨0x34000000, fun _ => 0⟩, 0, 0⟩ twoFrames
    (by decide +kernel) (by decide +kernel)

theorem setUserInputBuffer_of_aligned {buffer size : BitVec 32} (halign : buffer % 32 = 0)
    (hsize : 150528 ≤ size) (s : Instance) :
    setUserInputBuffer 0 buffer size s = (.noError, { s with userInput := buffer }) := by
  unfold setUserInputBuffer
  rw [if_pos rfl, if_neg (not_not.mpr halign), if_neg (BitVec.not_lt.mpr hsize)]

/-! ## The address of the input -/

/-- The places of the blob that hold an address of the input. -/
def inputWords (binary : Bytes) : List ℕ := places (relocTablePtr binary) relocIdx

/-- A binary that can be loaded, and that names words of its blob once each for the input. -/
structure NamesInput (binary : Bytes) (address : ℕ) : Prop where
  loadable : Loadable binary address 11602
  aligned : RelocAligned (relocTablePtr binary) relocIdx
  named : inputWords binary ≠ []
  once : (inputWords binary).Nodup
  inside : ∀ i ∈ inputWords binary, i < blobLength binary

/-- Where the blob starts to read its input. -/
def inputAddress (binary : Bytes) (s : Instance) : BitVec 32 :=
  match inputWords binary with
  | [] => 0
  | i :: _ => s.blob.words i - blobWord binary i

theorem ecNetworkInit_of_namesInput (h : NamesInput binary s.blob.address) :
    (ecNetworkInit binary s).1 = true := by
  unfold ecNetworkInit
  rw [ecCopyBlob_of_loadable h.loadable]

theorem Moved.word_eq (h : Moved binary address s) (hnames : NamesInput binary address) {i : ℕ}
    (hi : i ∈ inputWords binary) : s.blob.words i = blobWord binary i + s.prevBaseAddr := by
  have honce : inputPlaces binary i = 1 := List.count_eq_one_of_mem hnames.once hi
  rw [h.words i (hnames.inside i hi), honce, one_nsmul]

theorem Moved.inputAddress_eq (h : Moved binary address s) (hnames : NamesInput binary address) :
    inputAddress binary s = s.prevBaseAddr := by
  unfold inputAddress
  cases hwords : inputWords binary with
  | nil => exact absurd hwords hnames.named
  | cons i rest =>
      have hword := h.word_eq hnames (i := i) (by simp [hwords])
      simp only [hword, add_sub_cancel_left]

/-- The first double words of `_ec_blob_Default_1_binary`, up to the size of the blob. -/
def binaryHeader : List (BitVec 64) :=
  [0x00000018ecbf0030, 0x0000000000000000, 0x0000000000000048, 0x0000001800000001,
    0x0000001000000002, 0x0000002000000012, 0x6f695f726573755f, 0x305f7475706e695f,
    0x0000000000000000, 0x00002d50ca057a7a]

def StartsWith (binary : Bytes) (l : List (BitVec 64)) : Prop :=
  ∀ i < 8 * l.length, binary i = ofDoubleWords l i

theorem StartsWith.fileEntry_eq {l : List (BitVec 64)} (h : StartsWith binary l) {offset : ℕ}
    (hinside : offset + 3 < 8 * l.length) :
    fileEntry binary offset = fileEntry (ofDoubleWords l) offset := by
  unfold fileEntry
  rw [h offset (by omega), h (offset + 1) (by omega), h (offset + 2) (by omega),
    h (offset + 3) hinside]

theorem relocOffset_network (h : StartsWith binary binaryHeader) :
    relocOffset (relocTablePtr binary) relocIdx = 16 :=
  h.fileEntry_eq (by decide)

/-- The binary of the network names two words, for the start and the end of its input. -/
theorem inputWords_network (h : StartsWith binary binaryHeader) :
    inputWords binary = [20, 34] := by
  have hsize : fileEntry (relocTablePtr binary) 0 = 1 := h.fileEntry_eq (by decide)
  have hnum : relocNum (relocTablePtr binary) relocIdx = 2 := h.fileEntry_eq (by decide)
  have hfirst : fileEntry (relocTablePtr binary) ((16 : BitVec 32).toNat + 4 * 0) = 18 :=
    h.fileEntry_eq (by decide)
  have hsecond : fileEntry (relocTablePtr binary) ((16 : BitVec 32).toNat + 4 * 1) = 32 :=
    h.fileEntry_eq (by decide)
  have hstart : relocPlace (relocTablePtr binary) relocIdx 0 = 20 := by
    rw [relocPlace, relocOffset_network h, hfirst]
    rfl
  have hend : relocPlace (relocTablePtr binary) relocIdx 1 = 34 := by
    rw [relocPlace, relocOffset_network h, hsecond]
    rfl
  have hplaces : inputWords binary =
      [relocPlace (relocTablePtr binary) relocIdx 0,
        relocPlace (relocTablePtr binary) relocIdx 1] := by
    rw [inputWords, places, hsize, hnum]
    rfl
  rw [hplaces, hstart, hend]

theorem loadable_network (h : StartsWith binary binaryHeader) (haligned : address % 8 = 0) :
    Loadable binary address 11602 := by
  have hblob : fileEntry binary 16 = 72 := h.fileEntry_eq (by decide)
  have hsize : fileEntry binary ((72 : BitVec 32).toNat + 4) = 11600 := h.fileEntry_eq (by decide)
  constructor
  case magic => exact h.fileEntry_eq (by decide)
  case offset =>
    rw [hblob]
    decide
  case blobMagic =>
    rw [hblob]
    exact h.fileEntry_eq (by decide)
  case aligned => exact haligned
  case room =>
    rw [hblob, hsize]
    decide

theorem blobLength_network (h : StartsWith binary binaryHeader) : blobLength binary = 11602 := by
  have hblob : fileEntry binary 16 = 72 := h.fileEntry_eq (by decide)
  have hsize : fileEntry binary ((72 : BitVec 32).toNat + 4 * 1) = 11600 :=
    h.fileEntry_eq (by decide)
  rw [blobLength, blobWord, hblob, hsize]
  rfl

theorem namesInput_network (h : StartsWith binary binaryHeader) (haligned : address % 8 = 0) :
    NamesInput binary address := by
  have hwords := inputWords_network h
  constructor
  case loadable => exact loadable_network h haligned
  case aligned =>
    intro _
    rw [relocOffset_network h]
    decide
  case named =>
    rw [hwords]
    decide
  case once =>
    rw [hwords]
    decide
  case inside =>
    rw [hwords, blobLength_network h]
    decide

end N6Samples.Npu
