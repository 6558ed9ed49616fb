import Mathlib.Data.Finset.Sort
import OiUserland.Lib.Loops
import OiUserland.CmapCompact.SaveFile

namespace OiUserland.CmapCompact.CellSearch

open Lib.Halvings SaveFile

section Server

structure Colormap (planes : Nat) where
  free : Finset Nat
  taken : List Nat
  valid : ∀ c ∈ free, c < 2 ^ planes

structure Server where
  cells : Finset Nat → Nat → List Nat
  length_cells : ∀ free n, n ≤ free.card → (cells free n).length = n
  nodup_cells : ∀ free n, n ≤ free.card → (cells free n).Nodup
  free_cells : ∀ free n, n ≤ free.card → ∀ c ∈ cells free n, c ∈ free

variable {planes : Nat} (server : Server)

/-- What the server answers for a cell: its color, unless the cell is reserved, and whether a color can be
stored in it. -/
structure Display where
  query : Nat → Option (BitVec 16 × BitVec 16 × BitVec 16)
  stores : Nat → Bool

end Server

section Program

inductive CellType
  | ignore
  | readonly
  deriving DecidableEq

def store {α : Type} (a : List α) (off : Nat) (l : List α) : Option (List α) :=
  if off + l.length ≤ a.length then some (a.take off ++ l ++ a.drop (off + l.length)) else none

structure Record (planes : Nat) where
  cmap : Colormap planes
  pixels : List Nat
  pixtype : List CellType
  ncolors : Int

variable {planes : Nat} (server : Server) (display : Display)

/-- What cmc_record gives: the number of colors and the colors, with how many of them have got a pixel. -/
structure Recorded where
  ncolors : Int
  colors : List XColor
  stored : Nat

end Program

section Cells

variable {planes n bound : Nat} {server : Server} {free : Finset Nat} {cmap : Colormap planes}

structure Grabbed (free : Finset Nat) (bound : Nat) (cmap : Colormap planes) : Prop where
  few : cmap.free.card < bound
  nodup : cmap.taken.Nodup
  sub : cmap.free ⊆ free
  taken_iff : ∀ c, c ∈ cmap.taken ↔ c ∈ free ∧ c ∉ cmap.free

theorem Grabbed.length_le (h : Grabbed free bound cmap) (hvalid : ∀ c ∈ free, c < 2 ^ planes) :
    cmap.taken.length ≤ 2 ^ planes := by
  have hsub : cmap.taken ⊆ List.range (2 ^ planes) := fun c hc =>
    List.mem_range.mpr (hvalid c ((h.taken_iff c).mp hc).1)
  have hle := (h.nodup.subperm hsub).length_le
  rwa [List.length_range] at hle

theorem Grabbed.all (h : Grabbed free 1 cmap) : cmap.free = ∅ ∧ cmap.taken.Nodup ∧ cmap.taken.toFinset = free := by
  have hnone : cmap.free = ∅ := Finset.card_eq_zero.mp (Nat.lt_one_iff.mp h.few)
  refine ⟨hnone, h.nodup, ?_⟩
  ext c
  rw [List.mem_toFinset, h.taken_iff, hnone]
  exact and_iff_left (Finset.notMem_empty c)

theorem store_eq {α : Type} {a l : List α} {off : Nat} (h : off + l.length ≤ a.length) :
    ∃ a', store a off l = some a' ∧ a'.length = a.length ∧ a'.take (off + l.length) = a.take off ++ l := by
  have htake : (a.take off).length = off := by
    rw [List.length_take, Nat.min_eq_left (Nat.le_of_add_right_le h)]
  refine ⟨_, if_pos h, ?_, ?_⟩
  · rw [List.length_append, List.length_append, htake, List.length_drop]
    omega
  · rw [List.take_append_of_le_length]
    · refine List.take_of_length_le ?_
      rw [List.length_append, htake]
    · rw [List.length_append, htake]

end Cells

section Counting

variable {i j n : Nat} {pixtype : List CellType}

def kept (pixtype : List CellType) (n : Nat) : List Nat := (List.range n).filter fun i => pixtype[i]? ≠ some .ignore

end Counting

section Search

variable {planes k : Nat} {server : Server} {free : Finset Nat}

end Search

section Report

variable {planes n : Nat} {server : Server} {display : Display} {free : Finset Nat} {pixtype : List CellType}

/-- A color that has got its pixel. -/
def placed (i : Nat) : XColor := ⟨BitVec.ofNat 64 i, 0, 0, 0, 0, 0⟩

def lowest : Server where
  cells free n := (free.sort (· ≤ ·)).take n
  length_cells free n hn := by rw [List.length_take, Finset.length_sort, Nat.min_eq_left hn]
  nodup_cells free n _ := (Finset.sort_nodup ..).sublist (List.take_sublist ..)
  free_cells free n _ c hc := (Finset.mem_sort (· ≤ ·)).mp (List.mem_of_mem_take hc)

end Report

end OiUserland.CmapCompact.CellSearch
