import Mathlib.Data.Int.Notation
import Mathlib.Data.List.Induction
import Mathlib.Logic.Function.Basic
import N6Samples.Lib.Loop

/-! # Greedy selection

A scan that keeps an element unless one kept before it excludes it, and the two loops that
do this in place: entries of an array are dropped where they stand, pair by pair, and a
counter then cuts the number of those that remain.
-/

namespace N6Samples.Greedy

open Loop

/-! ## Selection from a list -/

section
variable {α : Type*} (excludes : α → α → Bool)

def keepOne (kept : List α) (a : α) : List α :=
  if kept.any (excludes · a) then kept else kept ++ [a]

/-- The elements that no element kept before them excludes. -/
def greedy (l : List α) : List α := l.foldl (keepOne excludes) []

variable {excludes}

theorem greedy_concat (l : List α) (a : α) :
    greedy excludes (l ++ [a]) = keepOne excludes (greedy excludes l) a := by
  simp only [greedy, List.foldl_append, List.foldl_cons, List.foldl_nil]

theorem keepOne_of_any {kept : List α} {a : α} (h : kept.any (excludes · a) = true) :
    keepOne excludes kept a = kept := if_pos h

theorem keepOne_of_none {kept : List α} {a : α} (h : kept.any (excludes · a) = false) :
    keepOne excludes kept a = kept ++ [a] := if_neg (by rw [h]; exact Bool.false_ne_true)

theorem any_eq_false {l : List α} {p : α → Bool} : l.any p = false ↔ ∀ a ∈ l, p a = false := by
  simp

theorem greedy_sublist (l : List α) : (greedy excludes l).Sublist l := by
  induction l using List.reverseRecOn with
  | nil => exact List.Sublist.refl []
  | append_singleton l a ih =>
      rw [greedy_concat]
      cases h : (greedy excludes l).any (excludes · a) with
      | true =>
          rw [keepOne_of_any h]
          exact ih.trans (List.sublist_append_left l [a])
      | false =>
          rw [keepOne_of_none h]
          exact ih.append_right [a]

/-- No element that is kept excludes a later one that is kept. -/
theorem greedy_pairwise (l : List α) :
    (greedy excludes l).Pairwise fun a b => excludes a b = false := by
  induction l using List.reverseRecOn with
  | nil => exact List.Pairwise.nil
  | append_singleton l a ih =>
      rw [greedy_concat]
      cases h : (greedy excludes l).any (excludes · a) with
      | true => rwa [keepOne_of_any h]
      | false =>
          rw [keepOne_of_none h, List.pairwise_append]
          refine ⟨ih, List.pairwise_singleton _ _, ?_⟩
          intro b hb c hc
          rw [List.mem_singleton.mp hc]
          exact any_eq_false.mp h b hb

/-- What is not kept is excluded by something that is and that comes before it. -/
theorem exists_excludes_of_notMem {R : α → α → Prop} {l : List α} (hl : l.Pairwise R) {a : α}
    (ha : a ∈ l) (hdropped : a ∉ greedy excludes l) :
    ∃ b ∈ greedy excludes l, excludes b a = true ∧ R b a := by
  induction l using List.reverseRecOn with
  | nil => exact absurd ha List.not_mem_nil
  | append_singleton l c ih =>
      obtain ⟨hl, -, hlast⟩ := List.pairwise_append.mp hl
      rw [greedy_concat] at hdropped ⊢
      cases h : (greedy excludes l).any (excludes · c) with
      | true =>
          rw [keepOne_of_any h] at hdropped ⊢
          rcases List.mem_append.mp ha with hold | hnew
          · exact ih hl hold hdropped
          · obtain ⟨b, hb, hexcl⟩ := List.any_eq_true.mp h
            rw [List.mem_singleton.mp hnew]
            exact ⟨b, hb, hexcl, hlast b ((greedy_sublist l).mem hb) c (List.mem_singleton_self c)⟩
      | false =>
          rw [keepOne_of_none h] at hdropped ⊢
          rw [List.mem_append, not_or] at hdropped
          rcases List.mem_append.mp ha with hold | hnew
          · obtain ⟨b, hb, hexcl⟩ := ih hl hold hdropped.1
            exact ⟨b, List.mem_append_left _ hb, hexcl⟩
          · exact absurd hnew hdropped.2

/-- Where an ordered selection is cut: whatever does not make it is excluded by something that
does, or the selection is full of elements that come before it. -/
theorem greedy_take_accounts {R : α → α → Prop} (htrans : ∀ a b c, R a b → R b c → R a c)
    {l : List α} (hl : l.Pairwise R) {c : α} (hc : c ∈ l) (n : ℕ) :
    c ∈ (greedy excludes l).take n ∨
      (∃ b ∈ (greedy excludes l).take n, excludes b c = true ∧ R b c) ∨
      ((greedy excludes l).take n).length = n ∧ ∀ b ∈ (greedy excludes l).take n, R b c := by
  have hkept : (greedy excludes l).Pairwise R := hl.sublist (greedy_sublist l)
  rw [← List.take_append_drop n (greedy excludes l), List.pairwise_append] at hkept
  have hcut : ∀ b ∈ (greedy excludes l).drop n, ((greedy excludes l).take n).length = n := by
    intro b hb
    have hlength := List.length_pos_of_mem hb
    rw [List.length_drop] at hlength
    rw [List.length_take]
    omega
  have hmem : ∀ b, b ∈ greedy excludes l ↔
      b ∈ (greedy excludes l).take n ∨ b ∈ (greedy excludes l).drop n := by
    intro b
    rw [← List.mem_append, List.take_append_drop]
  by_cases hin : c ∈ greedy excludes l
  · rcases (hmem c).mp hin with hfront | hback
    · exact Or.inl hfront
    · exact Or.inr (Or.inr ⟨hcut c hback, fun b hb => hkept.2.2 b hb c hback⟩)
  · obtain ⟨b, hb, hexcl, hbefore⟩ := exists_excludes_of_notMem hl hc hin
    rcases (hmem b).mp hb with hfront | hback
    · exact Or.inr (Or.inl ⟨b, hfront, hexcl, hbefore⟩)
    · exact Or.inr (Or.inr ⟨hcut b hback, fun a ha =>
        htrans a b c (hkept.2.2 a ha b hback) hbefore⟩)

/-- A list without exclusions is kept as it is. -/
theorem greedy_of_pairwise {l : List α} (h : l.Pairwise fun a b => excludes a b = false) :
    greedy excludes l = l := by
  induction l using List.reverseRecOn with
  | nil => rfl
  | append_singleton l a ih =>
      rw [List.pairwise_append] at h
      rcases h with ⟨hl, -, hlast⟩
      rw [greedy_concat, ih hl]
      apply keepOne_of_none
      exact any_eq_false.mpr fun b hb => hlast b hb a (List.mem_singleton_self a)

end

/-! ## Dropping entries where they stand -/

/-- Which entries of an array count, and how one is made not to. -/
structure Marking (α : Type*) where
  live : α → Bool
  drop : α → α
  live_drop : ∀ a, live (drop a) = false

namespace Marking

variable {α : Type*} (M : Marking α)

/-- The entries that count among the first `n`, in order. -/
def remaining (f : ℕ → α) (n : ℕ) : List α := ((List.range n).map f).filter M.live

theorem remaining_succ (f : ℕ → α) (n : ℕ) :
    M.remaining f (n + 1) = M.remaining f n ++ if M.live (f n) then [f n] else [] := by
  unfold remaining
  rw [List.range_succ, List.map_append, List.filter_append, List.map_singleton, List.filter_cons,
    List.filter_nil]

theorem remaining_succ_of_live {f : ℕ → α} {n : ℕ} (h : M.live (f n) = true) :
    M.remaining f (n + 1) = M.remaining f n ++ [f n] := by
  rw [remaining_succ, if_pos h]

theorem remaining_congr {f g : ℕ → α} {n : ℕ} (h : ∀ i < n, f i = g i) :
    M.remaining f n = M.remaining g n := by
  unfold remaining
  rw [List.map_congr_left fun i hi => h i (List.mem_range.mp hi)]

/-! ## The pairwise sweep -/

section
variable (excludes : α → α → Bool)

def strikeOne (i j : ℕ) (f : ℕ → α) : ℕ → α :=
  if M.live (f j) then
    if excludes (f i) (f j) then Function.update f j (M.drop (f j)) else f
  else f

/-- The outer loop body: an entry that still counts drops the later ones it excludes. -/
def strikeFrom (n i : ℕ) (f : ℕ → α) : ℕ → α :=
  if M.live (f i) then forRange (i + 1) (n - (i + 1)) (M.strikeOne excludes i) f else f

def sweep (n : ℕ) (f : ℕ → α) : ℕ → α := forRange 0 n (M.strikeFrom excludes n) f

/-- The entries that the first `i` ones keep. -/
def kept (f : ℕ → α) (i : ℕ) : List α := greedy excludes (M.remaining f i)

/-- Entry `j` once the first `i` entries have been swept. -/
def swept (f : ℕ → α) (i j : ℕ) : α :=
  if M.live (f j) && (M.kept excludes f (min i j)).any (excludes · (f j)) then M.drop (f j)
  else f j

variable {M excludes} {f g : ℕ → α} {i j n : ℕ}

theorem swept_of_not_live (h : M.live (f j) = false) : M.swept excludes f i j = f j := by
  simp [swept, h]

theorem swept_of_any (hlive : M.live (f j) = true)
    (hany : (M.kept excludes f (min i j)).any (excludes · (f j)) = true) :
    M.swept excludes f i j = M.drop (f j) := by
  unfold swept
  rw [hlive, hany, Bool.true_and, if_pos rfl]

theorem swept_of_none (hany : (M.kept excludes f (min i j)).any (excludes · (f j)) = false) :
    M.swept excludes f i j = f j := by
  unfold swept
  rw [hany, Bool.and_false, if_neg Bool.false_ne_true]

theorem live_swept : M.live (M.swept excludes f i j) =
    (M.live (f j) && !(M.kept excludes f (min i j)).any (excludes · (f j))) := by
  cases hlive : M.live (f j) with
  | false => rw [swept_of_not_live hlive, hlive, Bool.false_and]
  | true =>
      cases hany : (M.kept excludes f (min i j)).any (excludes · (f j)) with
      | false => rw [swept_of_none hany, hlive, Bool.not_false, Bool.and_true]
      | true => rw [swept_of_any hlive hany, M.live_drop, Bool.not_true, Bool.and_false]

theorem swept_of_live (h : M.live (M.swept excludes f i j) = true) :
    M.swept excludes f i j = f j ∧ M.live (f j) = true ∧
      (M.kept excludes f (min i j)).any (excludes · (f j)) = false := by
  rw [live_swept, Bool.and_eq_true, Bool.not_eq_true'] at h
  exact ⟨swept_of_none h.2, h⟩

/-- Entries that were swept before stay as they are. -/
theorem swept_succ_of_le (h : j ≤ i) : M.swept excludes f (i + 1) j = M.swept excludes f i j := by
  have hmin : min (i + 1) j = min i j := by omega
  unfold swept
  rw [hmin]

theorem kept_succ_of_live (h : M.live (M.swept excludes f i i) = true) :
    M.kept excludes f (i + 1) = M.kept excludes f i ++ [f i] := by
  obtain ⟨-, hlive, hany⟩ := swept_of_live h
  rw [Nat.min_self] at hany
  unfold kept at hany ⊢
  rw [M.remaining_succ_of_live hlive, greedy_concat, keepOne_of_none hany]

theorem kept_succ_of_not_live (h : M.live (M.swept excludes f i i) = false) :
    M.kept excludes f (i + 1) = M.kept excludes f i := by
  cases hlive : M.live (f i) with
  | false =>
      unfold kept
      rw [remaining_succ, hlive, if_neg Bool.false_ne_true, List.append_nil]
  | true =>
      rw [live_swept, hlive, Bool.true_and, Bool.not_eq_false', Nat.min_self] at h
      unfold kept at h ⊢
      rw [M.remaining_succ_of_live hlive, greedy_concat, keepOne_of_any h]

/-- An entry that no longer counts changes nothing. -/
theorem swept_succ_of_not_live (h : M.live (M.swept excludes f i i) = false) :
    M.swept excludes f (i + 1) j = M.swept excludes f i j := by
  rcases Nat.lt_or_ge i j with hlt | hle
  · have hnow : min i j = i := by omega
    have hnext : min (i + 1) j = i + 1 := by omega
    unfold swept
    rw [hnow, hnext, kept_succ_of_not_live h]
  · exact swept_succ_of_le hle

/-- An entry that counts drops the later ones that it excludes and no others. -/
theorem swept_succ_of_live (hij : i < j) (h : M.live (M.swept excludes f i i) = true) :
    M.swept excludes f (i + 1) j =
      if M.live (M.swept excludes f i j) && excludes (f i) (f j) then M.drop (f j)
      else M.swept excludes f i j := by
  have hnow : min i j = i := by omega
  have hnext : (M.kept excludes f (min (i + 1) j)).any (excludes · (f j)) =
      ((M.kept excludes f i).any (excludes · (f j)) || excludes (f i) (f j)) := by
    have hmin : min (i + 1) j = i + 1 := by omega
    rw [hmin, kept_succ_of_live h, List.any_append, List.any_cons, List.any_nil, Bool.or_false]
  rw [live_swept]
  unfold swept
  rw [hnext, hnow]
  cases M.live (f j) <;> cases (M.kept excludes f i).any (excludes · (f j)) <;>
    cases excludes (f i) (f j) <;> rfl

theorem strikeOne_swept (hij : i < j) (h : M.live (M.swept excludes f i i) = true)
    (hi : g i = f i) (hj : g j = M.swept excludes f i j) :
    M.strikeOne excludes i j g = Function.update g j (M.swept excludes f (i + 1) j) := by
  unfold strikeOne
  rw [swept_succ_of_live hij h, hi, hj]
  cases hlive : M.live (M.swept excludes f i j) with
  | false =>
      rw [Bool.false_and, if_neg Bool.false_ne_true, if_neg Bool.false_ne_true, ← hj,
        Function.update_eq_self]
  | true =>
      rw [(swept_of_live hlive).1, if_pos rfl, Bool.true_and]
      cases excludes (f i) (f j) with
      | true => rfl
      | false =>
          rw [if_neg Bool.false_ne_true, if_neg Bool.false_ne_true, ← (swept_of_live hlive).1, ← hj,
            Function.update_eq_self]

theorem strikeFrom_swept (hi : i < n) (hg : ∀ j < n, g j = M.swept excludes f i j) :
    ∀ j < n, M.strikeFrom excludes n i g j = M.swept excludes f (i + 1) j := by
  unfold strikeFrom
  cases h : M.live (g i) with
  | false =>
      rw [hg i hi] at h
      intro j hj
      rw [if_neg Bool.false_ne_true, hg j hj, swept_succ_of_not_live h]
  | true =>
      rw [hg i hi] at h
      have hentry : g i = f i := (hg i hi).trans (swept_of_live h).1
      -- below `k` the inner loop has been, from `k` on it has not
      let Struck (k : ℕ) (t : ℕ → α) : Prop := t i = f i ∧
        (∀ j < k, j < n → t j = M.swept excludes f (i + 1) j) ∧
        ∀ j < n, k ≤ j → t j = M.swept excludes f i j
      have hstart : Struck (i + 1) g := by
        refine ⟨hentry, ?_, fun j hj _ => hg j hj⟩
        intro j hj hjn
        rw [hg j hjn, swept_succ_of_le (by omega)]
      have hend : Struck (i + 1 + (n - (i + 1)))
          (forRange (i + 1) (n - (i + 1)) (M.strikeOne excludes i) g) := by
        apply forRange_invariant Struck hstart
        intro k t hik hkn ht
        rcases ht with ⟨hti, hbelow, habove⟩
        rw [strikeOne_swept (by omega) h hti (habove k (by omega) (Nat.le_refl k))]
        refine ⟨?_, ?_, ?_⟩
        · rw [Function.update_of_ne (by omega), hti]
        · intro j hj hjn
          rcases Nat.lt_succ_iff_lt_or_eq.mp hj with hlt | rfl
          · rw [Function.update_of_ne (by omega), hbelow j hlt hjn]
          · rw [Function.update_self]
        · intro j hjn hkj
          rw [Function.update_of_ne (by omega), habove j hjn (by omega)]
      rw [if_pos rfl]
      intro j hj
      exact hend.2.1 j (by omega) hj

theorem sweep_eq (n : ℕ) (f : ℕ → α) :
    ∀ j < n, M.sweep excludes n f j = M.swept excludes f n j := by
  let Swept (i : ℕ) (g : ℕ → α) : Prop := ∀ j < n, g j = M.swept excludes f i j
  have hstart : Swept 0 f := by
    intro j _
    rw [swept_of_none]
    rw [Nat.zero_min]
    rfl
  have hend : Swept (0 + n) (M.sweep excludes n f) := by
    apply forRange_invariant Swept hstart
    intro i g _ hi hg
    rw [Nat.zero_add] at hi
    exact strikeFrom_swept hi hg
  rwa [Nat.zero_add] at hend

theorem sweep_congr (h : ∀ i < n, f i = g i) :
    ∀ i < n, M.sweep excludes n f i = M.sweep excludes n g i := by
  intro i hi
  rw [sweep_eq n f i hi, sweep_eq n g i hi]
  unfold swept kept
  rw [h i hi, M.remaining_congr fun j hj => h j (by omega)]

/-- The sweep leaves what greedy selection keeps of the entries that counted. -/
theorem remaining_sweep (n : ℕ) (f : ℕ → α) :
    M.remaining (M.sweep excludes n f) n = greedy excludes (M.remaining f n) := by
  rw [M.remaining_congr (sweep_eq n f)]
  suffices h : ∀ k ≤ n, M.remaining (M.swept excludes f n) k = M.kept excludes f k from
    h n (Nat.le_refl n)
  intro k hk
  induction k with
  | zero => rfl
  | succ k ih =>
      have hmin : M.swept excludes f n k = M.swept excludes f k k := by
        unfold swept
        rw [Nat.min_self, Nat.min_eq_right (by omega)]
      rw [remaining_succ, ih (by omega), hmin]
      cases h : M.live (M.swept excludes f k k) with
      | true => rw [kept_succ_of_live h, (swept_of_live h).1, if_pos rfl]
      | false => rw [kept_succ_of_not_live h, if_neg Bool.false_ne_true, List.append_nil]

end

/-! ## The counted cut -/

/-- One entry of the cut: it stays while there is room and it counts. -/
def capOne (limit : ℤ) (y : ℕ) (x : (ℕ → α) × ℤ) : (ℕ → α) × ℤ :=
  if x.2 < limit ∧ M.live (x.1 y) = true then (x.1, x.2 + 1)
  else (Function.update x.1 y (M.drop (x.1 y)), x.2)

def cap (limit : ℤ) (n : ℕ) (f : ℕ → α) : ℕ → α := (forRange 0 n (M.capOne limit) (f, 0)).1

/-- Before entry `y`, the cut has kept the first of the entries that count, and counted them. -/
structure Capped (limit : ℤ) (f : ℕ → α) (y : ℕ) (x : (ℕ → α) × ℤ) : Prop where
  remaining : M.remaining x.1 y = (M.remaining f y).take limit.toNat
  count : x.2 = (M.remaining x.1 y).length
  rest : ∀ k, y ≤ k → x.1 k = f k

variable {M} {limit : ℤ} {f : ℕ → α} {y : ℕ} {x : (ℕ → α) × ℤ}

theorem Capped.room (h : M.Capped limit f y x) :
    x.2 < limit ↔ (M.remaining f y).length < limit.toNat := by
  rw [h.count, h.remaining, List.length_take]
  omega

theorem remaining_update_last (g : ℕ → α) (a : α) (y : ℕ) :
    M.remaining (Function.update g y a) y = M.remaining g y :=
  M.remaining_congr fun i hi => Function.update_of_ne (by omega) _ _

theorem Capped.step (h : M.Capped limit f y x) : M.Capped limit f (y + 1) (M.capOne limit y x) := by
  have hy : x.1 y = f y := h.rest y (Nat.le_refl y)
  unfold capOne
  by_cases hstays : x.2 < limit ∧ M.live (x.1 y) = true
  · rw [if_pos hstays]
    obtain ⟨hroom, hlive⟩ := hstays
    rw [h.room] at hroom
    have hnext : M.remaining x.1 (y + 1) = (M.remaining f (y + 1)).take limit.toNat := by
      rw [M.remaining_succ_of_live hlive, h.remaining, hy]
      rw [hy] at hlive
      rw [M.remaining_succ_of_live hlive, List.take_of_length_le (by omega),
        List.take_of_length_le (by rw [List.length_append, List.length_singleton]; omega)]
    refine ⟨hnext, ?_, fun k hk => h.rest k (by omega)⟩
    rw [M.remaining_succ_of_live hlive, List.length_append, List.length_singleton, h.count]
    rfl
  · rw [if_neg hstays]
    have hdead : M.live (Function.update x.1 y (M.drop (x.1 y)) y) = false := by
      rw [Function.update_self, M.live_drop]
    have hsame : M.remaining (Function.update x.1 y (M.drop (x.1 y))) (y + 1) =
        M.remaining x.1 y := by
      rw [remaining_succ, hdead, if_neg Bool.false_ne_true, List.append_nil, remaining_update_last]
    refine ⟨?_, ?_, ?_⟩
    · rw [hsame, h.remaining]
      cases hlive : M.live (f y) with
      | false => rw [remaining_succ, hlive, if_neg Bool.false_ne_true, List.append_nil]
      | true =>
          rw [hy, not_and] at hstays
          have hfull := mt h.room.mpr fun hroom => hstays hroom hlive
          rw [M.remaining_succ_of_live hlive, List.take_append_of_le_length (by omega)]
    · rw [hsame, h.count]
    · intro k hk
      exact (Function.update_of_ne (by omega) _ _).trans (h.rest k (by omega))

theorem capOne_of_ne {i : ℕ} (hi : i ≠ y) : (M.capOne limit y x).1 i = x.1 i := by
  unfold capOne
  split
  · rfl
  · exact Function.update_of_ne hi _ _

theorem capOne_congr {x' : (ℕ → α) × ℤ} {k : ℕ} (hy : y < k) (hcount : x.2 = x'.2)
    (h : ∀ i < k, x.1 i = x'.1 i) : (M.capOne limit y x).2 = (M.capOne limit y x').2 ∧
      ∀ i < k, (M.capOne limit y x).1 i = (M.capOne limit y x').1 i := by
  unfold capOne
  rw [hcount, h y hy]
  split
  · exact ⟨rfl, h⟩
  · refine ⟨rfl, fun i hi => ?_⟩
    simp only [Function.update_apply, h i hi]

/-- What the cut makes of the first entries depends on these alone, also where it goes on to
the entry after them. -/
theorem cap_congr {g : ℕ → α} {k : ℕ} (h : ∀ i < k, f i = g i) :
    ∀ i < k, M.cap limit (k + 1) f i = M.cap limit (k + 1) g i := by
  let Agree (x x' : (ℕ → α) × ℤ) : Prop := x.2 = x'.2 ∧ ∀ i < k, x.1 i = x'.1 i
  have hstart : Agree (f, 0) (g, 0) := ⟨rfl, h⟩
  have hloop : Agree (forRange 0 k (M.capOne limit) (f, 0))
      (forRange 0 k (M.capOne limit) (g, 0)) := by
    apply forRange_related Agree hstart
    intro y x x' _ hy hx
    rw [Nat.zero_add] at hy
    exact capOne_congr hy hx.1 hx.2
  intro i hi
  unfold cap
  rw [forRange_succ, forRange_succ, Nat.zero_add, capOne_of_ne (Nat.ne_of_lt hi),
    capOne_of_ne (Nat.ne_of_lt hi)]
  exact hloop.2 i hi

theorem capOne_remaining {k : ℕ} (hk : k ≤ y) :
    M.remaining (M.capOne limit y x).1 k = M.remaining x.1 k :=
  M.remaining_congr fun i hi => capOne_of_ne (by omega)

/-- The cut leaves the first `limit` of the entries that counted, also where it goes on past
the last of them. -/
theorem remaining_cap (limit : ℤ) (f : ℕ → α) {k n : ℕ} (hk : k ≤ n) :
    M.remaining (M.cap limit n f) k = (M.remaining f k).take limit.toNat := by
  have hstart : M.Capped limit f 0 (f, 0) := ⟨List.take_nil.symm, rfl, fun _ _ => rfl⟩
  have hfirst : M.Capped limit f (0 + k) (forRange 0 k (M.capOne limit) (f, 0)) :=
    forRange_invariant (M.Capped limit f) hstart fun y x _ _ hx => hx.step
  rw [Nat.zero_add] at hfirst
  obtain ⟨rest, rfl⟩ := Nat.exists_eq_add_of_le hk
  unfold cap
  rw [forRange_add, ← hfirst.remaining]
  exact forRange_invariant (fun _ (x : (ℕ → α) × ℤ) => M.remaining x.1 k = _) rfl
    fun y x hy _ hx => (capOne_remaining (by omega)).trans hx

end Marking

end N6Samples.Greedy
