import Mathlib.Algebra.GroupWithZero.Nat
import Mathlib.Data.List.Chain
import RemoteBackup.Lib.Run

/-!
# `RemoteBackup.Lib.Packing`: putting items into bins in their order

Items come one after another, and each goes into the last bin if there is room, and into a new
bin otherwise (`place`). A bin without items has the load `base`, and no bin may have more than
`cap`.

* `Packed.place`: one more item leaves the bins packed.
* `packed_run`: a first bin without items is packed after any items, at least one, each of which
  has room in a bin of its own.
-/

set_option autoImplicit false

namespace RemoteBackup.Lib

variable {α : Type} (base : Nat) (size : α → Nat) (cap : Nat)

/-- What a bin weighs with its items. -/
def load (bin : List α) : Nat := base + (bin.map size).sum

/-- The next item. -/
def place (bins : List (List α)) (a : α) : List (List α) :=
  match bins.getLast? with
  | some last =>
      if load base size last + size a ≤ cap then bins.dropLast ++ [last ++ [a]] else bins ++ [[a]]
  | none => [[a]]

/-- The bins hold the items in their order, each whole in one bin. No bin is without an item or
over the limit, and the first item of a bin had no room in the bin before. -/
structure Packed (items : List α) (bins : List (List α)) : Prop where
  whole : bins.flatten = items
  filled : ∀ bin ∈ bins, bin ≠ []
  bounded : ∀ bin ∈ bins, load base size bin ≤ cap
  greedy : bins.IsChain fun bin next => ∀ a ∈ next.head?, cap < load base size bin + size a

variable {base size cap}

/-- One more item adds its own size. -/
theorem load_concat (bin : List α) (a : α) :
    load base size (bin ++ [a]) = load base size bin + size a := by
  simp [load, Nat.add_assoc]

/-- Only the last bin is looked at. -/
theorem place_concat (init : List (List α)) (last : List α) (a : α) :
    place base size cap (init ++ [last]) a =
      if load base size last + size a ≤ cap then init ++ [last ++ [a]]
      else init ++ [last] ++ [[a]] := by
  simp [place]

/-- There is a bin after an item was placed. -/
theorem place_ne_nil (bins : List (List α)) (a : α) : place base size cap bins a ≠ [] := by
  obtain rfl | ⟨init, last, rfl⟩ := bins.eq_nil_or_concat'
  · simp [place]
  · rw [place_concat]
    split <;> simp

/-- One bin with one item. -/
theorem packed_singleton {a : α} (ha : base + size a ≤ cap) : Packed base size cap [a] [[a]] where
  whole := rfl
  filled := by simp
  bounded := by simpa [load] using ha
  greedy := List.isChain_singleton _

/-- An item in the last bin. -/
theorem Packed.extend {items : List α} {init : List (List α)} {last : List α} {a : α}
    (h : Packed base size cap items (init ++ [last])) (hroom : load base size last + size a ≤ cap) :
    Packed base size cap (items ++ [a]) (init ++ [last ++ [a]]) := by
  have hlast : last ≠ [] := h.filled last (by simp)
  obtain ⟨hinit, -, hbefore⟩ := List.isChain_append.mp h.greedy
  constructor
  case whole =>
    rw [← h.whole]
    simp
  case filled =>
    intro bin hbin
    rcases List.mem_append.mp hbin with hbin | hbin
    · exact h.filled bin (List.mem_append_left _ hbin)
    · rw [List.mem_singleton.mp hbin]
      simp
  case bounded =>
    intro bin hbin
    rcases List.mem_append.mp hbin with hbin | hbin
    · exact h.bounded bin (List.mem_append_left _ hbin)
    · rw [List.mem_singleton.mp hbin, load_concat]
      exact hroom
  case greedy =>
    refine List.isChain_append.mpr ⟨hinit, List.isChain_singleton _, fun bin hbin next hnext => ?_⟩
    -- The last bin begins with the same item as before.
    have hhead : next.head? = last.head? := by
      rw [← Option.some.inj hnext]
      exact List.head?_append_of_ne_nil _ hlast
    rw [hhead]
    exact hbefore bin hbin last rfl

/-- An item in a new bin. -/
theorem Packed.openBin {items : List α} {init : List (List α)} {last : List α} {a : α}
    (h : Packed base size cap items (init ++ [last])) (hfull : cap < load base size last + size a)
    (ha : base + size a ≤ cap) :
    Packed base size cap (items ++ [a]) (init ++ [last] ++ [[a]]) := by
  have hnew := packed_singleton ha
  constructor
  case whole =>
    rw [← h.whole]
    simp
  case filled =>
    intro bin hbin
    rcases List.mem_append.mp hbin with hbin | hbin
    · exact h.filled bin hbin
    · exact hnew.filled bin hbin
  case bounded =>
    intro bin hbin
    rcases List.mem_append.mp hbin with hbin | hbin
    · exact h.bounded bin hbin
    · exact hnew.bounded bin hbin
  case greedy =>
    refine List.isChain_append.mpr ⟨h.greedy, hnew.greedy, fun bin hbin next hnext => ?_⟩
    -- The one new pair of neighbours is the full bin and the new one.
    rw [List.getLast?_concat] at hbin
    rw [← Option.some.inj hbin, ← Option.some.inj hnext]
    rintro b ⟨rfl⟩
    exact hfull

/-- One more item leaves the bins packed. -/
theorem Packed.place {items : List α} {bins : List (List α)} {a : α}
    (h : Packed base size cap items bins) (hbins : bins ≠ []) (ha : base + size a ≤ cap) :
    Packed base size cap (items ++ [a]) (place base size cap bins a) := by
  obtain ⟨init, last, rfl⟩ := bins.eq_nil_or_concat'.resolve_left hbins
  rw [place_concat]
  split
  · rename_i hroom
    exact h.extend hroom
  · rename_i hfull
    exact h.openBin (Nat.lt_of_not_le hfull) ha

/-- The first item finds room in the first bin, and all others leave the bins packed. Induction
from the last item. -/
theorem packed_run {items : List α} (hitems : items ≠ [])
    (hroom : ∀ a ∈ items, base + size a ≤ cap) :
    Packed base size cap items (run (Lib.place base size cap) [[]] items) := by
  induction items using List.reverseRecOn with
  | nil => exact absurd rfl hitems
  | append_singleton items a ih =>
      have ha : base + size a ≤ cap := hroom a (by simp)
      by_cases hnil : items = []
      · subst hnil
        have hfirst : run (Lib.place base size cap) [[]] [a] = [[a]] := by
          rw [run_singleton]
          simpa [Lib.place, load] using ha
        rw [List.nil_append, hfirst]
        exact packed_singleton ha
      · rw [run_append, run_singleton]
        have hpacked := ih hnil fun b hb => hroom b (List.mem_append_left _ hb)
        refine hpacked.place (fun hbins => hnil ?_) ha
        rw [← hpacked.whole, hbins]
        rfl

end RemoteBackup.Lib
