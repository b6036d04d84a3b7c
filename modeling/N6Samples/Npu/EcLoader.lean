import Mathlib.Algebra.BigOperators.Group.Finset.Basic
import Mathlib.Data.BitVec
import N6Samples.Lib.Loop
import N6Samples.Lib.Relocation

/-! # The loader of epoch controller blobs (`ecloader.c`)

An epoch controller binary holds a blob and a table of its relocations. The blob is copied to
memory, and its words are moved when the base of a relocation changes.
-/

namespace N6Samples.Npu

open Loop Relocation

/-! ## Binaries -/

/-- Memory from a pointer on. -/
abbrev Bytes := ℕ → BitVec 8

/-- The `ECFileEntry` at a byte offset. -/
def fileEntry (m : Bytes) (offset : ℕ) : BitVec 32 :=
  m (offset + 3) ++ m (offset + 2) ++ m (offset + 1) ++ m offset

def ecasmBinaryMagic : BitVec 32 := 0xECBF0030

def ecasmBlobMagic : BitVec 32 := 0xCA057A7A

/-- `ec_get_blob_ptr`, as an offset in the binary. -/
def ecGetBlobPtr (binary : Bytes) : Option ℕ :=
  if fileEntry binary 0 ≠ ecasmBinaryMagic then none
  else if fileEntry binary 16 = 0 then none
  else some (fileEntry binary 16).toNat

/-! ## Blobs -/

/-- An array of instructions, at an address. -/
structure Blob where
  address : ℕ
  words : ℕ → BitVec 32

/-- What `ec_copy_blob` leaves behind its pointers, and whether it succeeded. -/
structure Copied where
  ok : Bool
  blob : Option Blob
  blobSize : Option (BitVec 32)

/-- The words after `blob[0] = blob_magic`, `blob[1] = size` and the `memcpy` of the others. -/
def copyWords (binary : Bytes) (ptr : ℕ) (words : ℕ → BitVec 32) (i : ℕ) : BitVec 32 :=
  if i = 0 then fileEntry binary ptr
  else if i = 1 then fileEntry binary (ptr + 4)
  else if i < 2 + (fileEntry binary (ptr + 4) * 4).toNat / 4 then
    fileEntry binary (ptr + 8 + 4 * (i - 2))
  else words i

/-- `ec_copy_blob`; `none` is a null pointer. -/
def ecCopyBlob (blob : Option Blob) (binary : Bytes) (blobSize : Option (BitVec 32)) : Copied :=
  match ecGetBlobPtr binary with
  | none => ⟨false, blob, blobSize⟩
  | some ptr =>
      if fileEntry binary ptr ≠ ecasmBlobMagic then ⟨false, blob, blobSize⟩
      else
        match blob with
        | none => ⟨true, none, blobSize.map fun _ => fileEntry binary (ptr + 4) + 2⟩
        | some b =>
            if b.address % 8 ≠ 0 then ⟨false, some b, blobSize⟩
            else
              match blobSize with
              | none => ⟨false, some b, none⟩
              | some n =>
                  if n < fileEntry binary (ptr + 4) + 2 then ⟨false, some b, some n⟩
                  else ⟨true, some ⟨b.address, copyWords binary ptr b.words⟩, some n⟩

/-- A binary whose blob fits the memory of a blob. -/
structure Loadable (binary : Bytes) (address : ℕ) (blobSize : BitVec 32) : Prop where
  magic : fileEntry binary 0 = ecasmBinaryMagic
  offset : fileEntry binary 16 ≠ 0
  blobMagic : fileEntry binary (fileEntry binary 16).toNat = ecasmBlobMagic
  aligned : address % 8 = 0
  room : fileEntry binary ((fileEntry binary 16).toNat + 4) + 2 ≤ blobSize

theorem ecGetBlobPtr_eq_some {binary : Bytes} {ptr : ℕ} : ecGetBlobPtr binary = some ptr ↔
    fileEntry binary 0 = ecasmBinaryMagic ∧ fileEntry binary 16 ≠ 0 ∧
      (fileEntry binary 16).toNat = ptr := by
  unfold ecGetBlobPtr
  by_cases hmagic : fileEntry binary 0 = ecasmBinaryMagic
  · by_cases hoffset : fileEntry binary 16 = 0
    · rw [if_neg (not_not.mpr hmagic), if_pos hoffset]
      exact ⟨nofun, fun h => absurd hoffset h.2.1⟩
    · rw [if_neg (not_not.mpr hmagic), if_neg hoffset, Option.some_inj]
      exact ⟨fun h => ⟨hmagic, hoffset, h⟩, fun h => h.2.2⟩
  · rw [if_pos hmagic]
    exact ⟨nofun, fun h => absurd h.1 hmagic⟩

theorem ecCopyBlob_of_loadable {binary : Bytes} {b : Blob} {n : BitVec 32}
    (h : Loadable binary b.address n) : ecCopyBlob (some b) binary (some n) =
      ⟨true, some ⟨b.address, copyWords binary (fileEntry binary 16).toNat b.words⟩, some n⟩ := by
  have hptr : ecGetBlobPtr binary = some (fileEntry binary 16).toNat :=
    ecGetBlobPtr_eq_some.mpr ⟨h.magic, h.offset, rfl⟩
  unfold ecCopyBlob
  rw [hptr]
  simp only
  rw [if_neg (not_not.mpr h.blobMagic), if_neg (not_not.mpr h.aligned),
    if_neg (BitVec.not_lt.mpr h.room)]

theorem loadable_of_ecCopyBlob {binary : Bytes} {b : Blob} {n : BitVec 32}
    (h : (ecCopyBlob (some b) binary (some n)).ok = true) : Loadable binary b.address n := by
  unfold ecCopyBlob at h
  cases hptr : ecGetBlobPtr binary with
  | none => rw [hptr] at h; cases h
  | some ptr =>
      obtain ⟨hmagic, hoffset, rfl⟩ := ecGetBlobPtr_eq_some.mp hptr
      rw [hptr] at h
      simp only at h
      by_cases hblob : fileEntry binary (fileEntry binary 16).toNat = ecasmBlobMagic
      · rw [if_neg (not_not.mpr hblob)] at h
        by_cases haligned : b.address % 8 = 0
        · rw [if_neg (not_not.mpr haligned)] at h
          by_cases hroom : n < fileEntry binary ((fileEntry binary 16).toNat + 4) + 2
          · rw [if_pos hroom] at h
            cases h
          · exact ⟨hmagic, hoffset, hblob, haligned, BitVec.not_lt.mp hroom⟩
        · rw [if_pos haligned] at h
          cases h
      · rw [if_pos hblob] at h
        cases h

/-! ## Relocations -/

/-- What `ec_reloc` leaves in the blob and in `prev_base`, and whether it succeeded. -/
structure Reloc where
  ok : Bool
  words : ℕ → BitVec 32
  prevBase : BitVec 32

/-- The number of the words that relocation `idx` moves, and the offset of their list. -/
def relocNum (table : Bytes) (idx : BitVec 32) : BitVec 32 :=
  fileEntry table (4 * ((3 * idx).toNat + 2))

def relocOffset (table : Bytes) (idx : BitVec 32) : BitVec 32 :=
  fileEntry table (4 * ((3 * idx).toNat + 3))

/-- The index in the blob that entry `i` of the list stands for. -/
def relocPlace (table : Bytes) (idx : BitVec 32) (i : ℕ) : ℕ :=
  (fileEntry table ((relocOffset table idx).toNat + 4 * i) + 2).toNat

/-- `ec_reloc`. -/
def ecReloc (table : Option Bytes) (words : ℕ → BitVec 32) (idx base prevBase : BitVec 32) :
    Reloc :=
  match table with
  | none => ⟨false, words, prevBase⟩
  | some table =>
      if base = prevBase then ⟨true, words, prevBase⟩
      else if idx < fileEntry table 0 then
        if relocOffset table idx % 4 ≠ 0 then ⟨false, words, prevBase⟩
        else
          let moved := forRange 0 (relocNum table idx).toNat (fun i w =>
            Function.update w (relocPlace table idx i)
              (w (relocPlace table idx i) + (base - prevBase))) words
          ⟨true, moved, base⟩
      else ⟨true, words, base⟩

/-- The indices of the blob that relocation `idx` names, each as often as it does. -/
def places (table : Bytes) (idx : BitVec 32) : List ℕ :=
  if idx < fileEntry table 0 then
    (List.range (relocNum table idx).toNat).map (relocPlace table idx)
  else []

/-- The offset that `ec_reloc` tests. -/
def RelocAligned (table : Bytes) (idx : BitVec 32) : Prop :=
  idx < fileEntry table 0 → relocOffset table idx % 4 = 0

instance (table : Bytes) (idx : BitVec 32) : Decidable (RelocAligned table idx) :=
  inferInstanceAs (Decidable (_ → _))

variable {table : Bytes} {idx base prevBase : BitVec 32} {words : ℕ → BitVec 32}

theorem forRange_relocate (place : ℕ → ℕ) (d : BitVec 32) (n : ℕ) (words : ℕ → BitVec 32) :
    forRange 0 n (fun i w => Function.update w (place i) (w (place i) + d)) words =
      relocate ((List.range n).map place) d words := by
  induction n with
  | zero => rfl
  | succ n ih =>
      rw [forRange_succ, ih, Nat.zero_add, List.range_succ, List.map_append, List.map_singleton,
        relocate_concat]
      rfl

/-- The words move with `prev_base`, and on success it is the base asked for. -/
theorem ecReloc_spec (table : Bytes) (words : ℕ → BitVec 32) (idx base prevBase : BitVec 32) :
    ∃ ok present, ecReloc (some table) words idx base prevBase =
        ⟨ok, relocate (places table idx) (present - prevBase) words, present⟩ ∧
      (ok = true → present = base) ∧ (RelocAligned table idx → ok = true) := by
  unfold ecReloc places RelocAligned
  by_cases hsame : base = prevBase
  · refine ⟨true, prevBase, ?_, fun _ => hsame.symm, fun _ => rfl⟩
    rw [sub_self, relocate_zero]
    exact if_pos hsame
  · by_cases hidx : idx < fileEntry table 0
    · by_cases haligned : relocOffset table idx % 4 = 0
      · refine ⟨true, base, ?_, fun _ => rfl, fun _ => rfl⟩
        simp only [if_neg hsame, if_pos hidx, haligned, ne_eq, not_true_eq_false, if_false]
        rw [forRange_relocate]
      · refine ⟨false, prevBase, ?_, nofun, fun h => absurd (h hidx) haligned⟩
        rw [sub_self, relocate_zero]
        simp only [if_neg hsame, if_pos hidx, ne_eq, haligned, not_false_eq_true, if_true]
    · refine ⟨true, base, ?_, fun _ => rfl, fun _ => rfl⟩
      simp only [if_neg hsame, if_neg hidx]
      rfl

/-! ## Any calls -/

/-- A blob, with the `prev_base` of each of its relocations. -/
structure Loaded where
  words : ℕ → BitVec 32
  prevBases : ℕ → BitVec 32

/-- A call of `ec_reloc`. -/
structure RelocCall where
  idx : BitVec 32
  base : BitVec 32
deriving DecidableEq

def relocCall (table : Bytes) (s : Loaded) (c : RelocCall) : Loaded :=
  let r := ecReloc (some table) s.words c.idx c.base (s.prevBases c.idx.toNat)
  ⟨r.words, Function.update s.prevBases c.idx.toNat r.prevBase⟩

/-- The base that was asked for last. -/
def lastBase (calls : List RelocCall) (k : ℕ) : BitVec 32 :=
  match calls.reverse.find? fun c => c.idx.toNat = k with
  | some c => c.base
  | none => 0

theorem lastBase_concat (calls : List RelocCall) (c : RelocCall) :
    lastBase (calls ++ [c]) = Function.update (lastBase calls) c.idx.toNat c.base := by
  funext k
  unfold lastBase
  rw [List.reverse_concat, List.find?_cons]
  by_cases h : c.idx.toNat = k
  · subst h
    simp
  · simp [h, Function.update_of_ne (Ne.symm h)]

/-- The relocations that the table holds, by their index. -/
def relocations (table : Bytes) : Finset ℕ := Finset.range (fileEntry table 0).toNat

def placesAt (table : Bytes) (k : ℕ) : List ℕ := places table (BitVec.ofNat 32 k)

/-- A successful call moves its relocation, if the table holds it. -/
theorem Loaded.relocated_call {s : Loaded} {c : RelocCall} {original : ℕ → BitVec 32}
    (h : Relocated (relocations table) (placesAt table) s.prevBases original s.words)
    (haligned : RelocAligned table c.idx) :
    (relocCall table s c).prevBases = Function.update s.prevBases c.idx.toNat c.base ∧
      Relocated (relocations table) (placesAt table) (relocCall table s c).prevBases original
        (relocCall table s c).words := by
  obtain ⟨ok, present, heq, hbase, hok⟩ :=
    ecReloc_spec table s.words c.idx c.base (s.prevBases c.idx.toNat)
  obtain rfl := hbase (hok haligned)
  have hcall : relocCall table s c =
      ⟨relocate (places table c.idx) (c.base - s.prevBases c.idx.toNat) s.words,
        Function.update s.prevBases c.idx.toNat c.base⟩ := by
    rw [relocCall, heq]
  have hplaces : placesAt table c.idx.toNat = places table c.idx := by
    rw [placesAt, BitVec.ofNat_toNat, BitVec.setWidth_eq]
  rw [hcall]
  refine ⟨rfl, ?_⟩
  by_cases hidx : c.idx < fileEntry table 0
  · rw [← hplaces]
    exact h.move (Finset.mem_range.mpr hidx) c.base
  · have hnone : places table c.idx = [] := if_neg hidx
    rw [hnone]
    exact h.move_of_notMem (fun hmem => hidx (Finset.mem_range.mp hmem)) c.base

/-- Whatever calls were made, every word names the bases that were asked for last. -/
theorem ecReloc_calls (table : Bytes) (words : ℕ → BitVec 32) (calls : List RelocCall)
    (haligned : ∀ c ∈ calls, RelocAligned table c.idx) (i : ℕ) :
    (calls.foldl (relocCall table) ⟨words, fun _ => 0⟩).words i =
      words i + ∑ k ∈ relocations table, (placesAt table k).count i • lastBase calls k := by
  have hrun : (calls.foldl (relocCall table) ⟨words, fun _ => 0⟩).prevBases = lastBase calls ∧
      Relocated (relocations table) (placesAt table)
        (calls.foldl (relocCall table) ⟨words, fun _ => 0⟩).prevBases words
        (calls.foldl (relocCall table) ⟨words, fun _ => 0⟩).words := by
    induction calls using List.reverseRecOn with
    | nil => exact ⟨rfl, relocated_zero⟩
    | append_singleton calls c ih =>
        obtain ⟨hbases, hwords⟩ := ih fun d hd => haligned d (List.mem_append_left _ hd)
        have hstep := Loaded.relocated_call hwords (haligned c List.mem_concat_self)
        rw [List.foldl_concat, lastBase_concat, ← hbases]
        exact hstep
  rw [← hrun.1]
  exact hrun.2 i

/-- Double words in memory. -/
def ofDoubleWords (l : List (BitVec 64)) : Bytes :=
  fun i => (l.getD (i / 8) 0).extractLsb' (8 * (i % 8)) 8

/-- The table of two relocations that share a word. -/
def sharedTable : Bytes := ofDoubleWords
  [0x0000000000000002, 0x0000001c00000002, 0x0000000100000000, 0x0000000000000024,
    0x0000000100000001]

theorem ecReloc_calls_sharedTable :
    ([⟨0, 0x34100000⟩, ⟨1, 0x70380000⟩, ⟨0, 0x34200000⟩].foldl (relocCall sharedTable)
        ⟨fun _ => 5, fun _ => 0⟩).words 3 =
      5 + ∑ k ∈ relocations sharedTable, (placesAt sharedTable k).count 3 •
        lastBase [⟨0, 0x34100000⟩, ⟨1, 0x70380000⟩, ⟨0, 0x34200000⟩] k :=
  ecReloc_calls sharedTable (fun _ => 5)
    [⟨0, 0x34100000⟩, ⟨1, 0x70380000⟩, ⟨0, 0x34200000⟩] (by decide +kernel) 3

end N6Samples.Npu
