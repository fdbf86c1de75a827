import PartialTx.Bytes.Basic

/-! Lists of entries that are told apart by a key: look-up, adding without
repetition, replacement by another list, and ascending order. -/

namespace PartialTx

class Keyed (α : Type) where
  key : α → Bytes

namespace Keyed

variable {α : Type} [Keyed α]

/-- No key occurs twice. -/
def Distinct (entries : List α) : Prop := (entries.map key).Nodup

/-- The entry with a key. -/
def find? (k : Bytes) (entries : List α) : Option α := entries.find? fun e => key e == k

/-- Entries with one more at the end, unless its key is there. -/
def add? (entries : List α) (e : α) : Option (List α) :=
  if (find? (key e) entries).isSome then none else some (entries ++ [e])

/-- Entries with one put at the end in place of any with its key. -/
def replace (entries : List α) (e : α) : List α := entries.filter (key · != key e) ++ [e]

/-- Entries with all of another list put in place of those with their keys. -/
def override (mine theirs : List α) : List α := theirs.foldl replace mine

/-- The order in which entries are written: by their keys, as byte strings. -/
def before (a b : α) : Bool := decide (key a < key b)

/-- Entries by ascending key; those with equal keys keep their order. -/
def sort (entries : List α) : List α := entries.mergeSort fun a b => !before b a

/-- How two entries compare, told from their order alone. -/
def compare (a b : α) : Ordering :=
  if before a b then .lt else if before b a then .gt else .eq

/-- Entries in the order of a comparison; those that compare equal keep their order. -/
def sortWith (cmp : α → α → Ordering) (entries : List α) : List α :=
  entries.mergeSort fun a b => cmp a b != .gt

end Keyed

end PartialTx
