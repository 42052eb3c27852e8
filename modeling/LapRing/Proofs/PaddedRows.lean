import LapRing.Proofs.LapSlots
import LapRing.LapFlags
import Mathlib.Algebra.Order.Group.Abs
import Mathlib.Algebra.Order.Group.Int
import Mathlib.Data.Set.Function

/-!
# Rows of cells with margins

In memory the slots of a ring and its flags are rows of cells with a margin on each side, cells
that keep the row off the cache lines of its neighbours. A sequence addresses the cell of its
slot behind the first margin. Whatever the sequence is, this is a cell between the margins, so a
row is as good as the slots alone.
-/
namespace LapRing

/-- Cells in memory. A cell that was never initialised holds nothing. -/
structure Row (α : Type) where
  cells : Array (Option α)
  mask : Int64
  /-- The number of cells on each side that are not meant to be used. -/
  margin : UInt64

namespace Row
variable {α : Type}

/-- The index of the cell that a sequence addresses. -/
def index (row : Row α) (s : Int64) : UInt64 := row.margin + (s &&& row.mask).toUInt64

/-- What is in the cell of a sequence, if it is there and holds something. -/
def read (row : Row α) (s : Int64) : Option α := row.cells[(row.index s).toNat]?.join

/-- Puts a value into the cell of a sequence, if it is there. -/
def write (row : Row α) (s : Int64) (x : α) : Option (Row α) :=
  if h : (row.index s).toNat < row.cells.size then
    some { row with cells := row.cells.set (row.index s).toNat (some x) h }
  else none

/-- The cells that are given up with the row. -/
def inner (row : Row α) : Array (Option α) :=
  row.cells.extract row.margin.toNat (row.margin.toNat + (row.mask.toUInt64 + 1).toNat)

/-- The cell of a sequence is there and not in a margin. -/
def Inside (row : Row α) (s : Int64) : Prop :=
  row.margin.toNat ≤ (row.index s).toNat ∧
    (row.index s).toNat + row.margin.toNat < row.cells.size

/-- A row has slots between its margins, and each sequence addresses the cell of its slot. -/
structure Holds {cap : Capacity} (row : Row α) (slots : Slots cap α) : Prop where
  size : row.cells.size = cap.slots + 2 * row.margin.toNat
  index : ∀ s, ((row.index s).toNat : ℤ) = row.margin.toNat + s.toInt % cap.slots
  read : ∀ s, row.read s = some (slots.read s)
  inner : row.inner.toList = slots.toList.map some

end Row

namespace Slots
variable {cap : Capacity} {α : Type}

/-- The slots between margins, whose cells are all the same. -/
def between (slots : Slots cap α) (margin : UInt64) (edge : Option α) : Row α where
  cells := .replicate margin.toNat edge ++
    (slots.cells.toArray.map some ++ .replicate margin.toNat edge)
  mask := cap.mask
  margin := margin

/-- The number of cells that fill `128` bytes. Cells without a size are taken for bytes. -/
def margin (bytes : UInt64) : UInt64 :=
  let size := max bytes 1
  128 / size + if 128 % size = 0 then 0 else 1

/-- The slots in memory. Their margins are never initialised. -/
def row (slots : Slots cap α) (bytes : UInt64) : Row α := slots.between (margin bytes) none

end Slots

/-- The flags in memory. Their margins are fresh flags. -/
def LapFlags.row {cap : Capacity} (flags : LapFlags cap) : Row Int32 :=
  flags.laps.between 16 (some (-1))

namespace Slots
variable {cap : Capacity} {α : Type}

theorem toNat_margin {bytes : UInt64} {size : ℕ} (hsize : (max bytes 1).toNat = size) :
    (margin bytes).toNat = 128 / size + if 128 % size = 0 then 0 else 1 := by
  have hle := Nat.div_le_self 128 size
  have hrest : 128 % max bytes 1 = 0 ↔ 128 % size = 0 := by
    rw [← UInt64.toNat_inj, UInt64.toNat_mod, hsize]
    rfl
  have hquot : (128 / max bytes 1).toNat = 128 / size := by
    rw [UInt64.toNat_div, hsize]
    rfl
  simp only [margin, hrest]
  split
  · rw [UInt64.add_zero, hquot, Nat.add_zero]
  · rw [UInt64.toNat_add, hquot, UInt64.toNat_one]
    omega

/-- A margin has at least `128` bytes, and at most as many cells. -/
theorem margin_bounds (bytes : UInt64) :
    128 ≤ (max bytes 1).toNat * (margin bytes).toNat ∧ (margin bytes).toNat ≤ 128 := by
  obtain ⟨size, hsize⟩ : ∃ size, (max bytes 1).toNat = size := ⟨_, rfl⟩
  have hpos : 1 ≤ size := by
    rw [← hsize, UInt64.toNat_max]
    exact le_max_right _ _
  have hwhole := Nat.div_add_mod 128 size
  have hmod := Nat.mod_lt 128 hpos
  have hle := Nat.div_le_self 128 size
  rw [hsize, toNat_margin hsize, Nat.mul_add]
  split
  · omega
  · rename_i hrest
    have hmore : 1 < size := by
      by_contra hone
      rw [show size = 1 by omega] at hrest
      exact hrest (Nat.mod_one 128)
    have hlt := Nat.div_lt_self (by decide : 0 < 128) hmore
    omega

variable (slots : Slots cap α) {margin : UInt64} (edge : Option α)

theorem size_between :
    (slots.between margin edge).cells.size = cap.slots + 2 * margin.toNat := by
  simp only [between, Array.size_append, Array.size_replicate, Array.size_map, Vector.size_toArray]
  omega

/-- The cells between the margins are those of the slots. -/
theorem inner_between : (slots.between margin edge).inner.toList = slots.toList.map some := by
  have hmask := cap.toNat_mask
  have hpos := cap.slots_pos
  have hle := cap.slots_le
  have hcount : (cap.mask.toUInt64 + 1).toNat = cap.slots := by
    rw [UInt64.toNat_add, hmask, UInt64.toNat_one]
    omega
  rw [Row.inner]
  change (Array.extract _ margin.toNat (margin.toNat + (cap.mask.toUInt64 + 1).toNat)).toList = _
  rw [hcount]
  simp [between, Array.extract_append, toList, Vector.toList, List.take_of_length_le]

section Narrow
variable (narrow : margin.toNat ≤ 128)
include narrow

theorem toNat_index (s : Int64) :
    ((slots.between margin edge).index s).toNat = margin.toNat + (cap.slot s).val := by
  have hslot := (cap.slot s).isLt
  have hle := cap.slots_le
  have hcell : (s &&& cap.mask).toUInt64.toNat = (cap.slot s).val := rfl
  change (margin + (s &&& cap.mask).toUInt64).toNat = _
  rw [UInt64.toNat_add, hcell]
  omega

theorem read_between (s : Int64) : (slots.between margin edge).read s = some (slots.read s) := by
  have hslot := (cap.slot s).isLt
  have hpast : ¬ margin.toNat + (cap.slot s).val < margin.toNat := by omega
  rw [Row.read, slots.toNat_index edge narrow]
  simp [between, Array.getElem?_append, Slots.read, hpast]

theorem write_between (s : Int64) (x : α) :
    (slots.between margin edge).write s x = some ((slots.write s x).between margin edge) := by
  have hslot := (cap.slot s).isLt
  have hsize : (slots.between margin edge).cells.size = _ := slots.size_between edge
  have hindex := slots.toNat_index edge narrow s
  have hin : ((slots.between margin edge).index s).toNat <
    (slots.between margin edge).cells.size := by omega
  rw [Row.write, dif_pos hin]
  simp only [hindex]
  simp [between, Slots.write]

/-- Whatever is written one after the other, nothing but the slots changes. -/
theorem writes_between (writes : List (Int64 × α)) :
    writes.foldlM (fun row w => row.write w.1 w.2) (slots.between margin edge) =
      some ((writes.foldl (fun slots w => slots.write w.1 w.2) slots).between margin edge) := by
  induction writes generalizing slots with
  | nil => rfl
  | cons w writes ih =>
    rw [List.foldlM_cons, slots.write_between edge narrow, Option.bind_eq_bind, Option.bind_some,
      ih, List.foldl_cons]

theorem holds_between : (slots.between margin edge).Holds slots where
  size := slots.size_between edge
  index s := by
    rw [slots.toNat_index edge narrow, Nat.cast_add, cap.slot_eq]
    rfl
  read := slots.read_between edge narrow
  inner := slots.inner_between edge

end Narrow

end Slots

namespace LapFlags
variable {cap : Capacity} (flags : LapFlags cap)

/-- The margins of fresh flags cannot be told from the flags. -/
theorem cells_row_new (cap : Capacity) :
    (new cap).row.cells = .replicate (cap.slots + 32) (some (-1)) := by
  have hmargin : (16 : UInt64).toNat = 16 := rfl
  simp [row, new, Slots.fill, Slots.between, hmargin]
  omega

theorem holds_row : flags.row.Holds flags.laps := flags.laps.holds_between _ (by decide)

theorem isAvailable_iff_row (s : Int64) :
    flags.isAvailable s ↔ flags.row.read s = some (cap.lap s) := by
  rw [flags.holds_row.read, Option.some_inj]
  exact decide_eq_true_iff

/-- Marks are made in the row as they are made in the flags. -/
theorem marks_row (marks : List Int64) :
    marks.foldlM (fun row s => row.write s (cap.lap s)) flags.row =
      some (marks.foldl mark flags).row := by
  induction marks generalizing flags with
  | nil => rfl
  | cons s marks ih =>
    have hmark : flags.row.write s (cap.lap s) = some (flags.mark s).row :=
      flags.laps.write_between _ (by decide) s _
    rw [List.foldlM_cons, hmark, Option.bind_eq_bind, Option.bind_some, ih, List.foldl_cons]

end LapFlags

namespace Row.Holds
variable {cap : Capacity} {α : Type} {row : Row α} {slots : Slots cap α} {s t : Int64}

/-- No sequence addresses a cell of a margin, or one that is not there. -/
theorem inside (h : row.Holds slots) (s : Int64) : row.Inside s := by
  have hindex := h.index s
  have hsize := h.size
  have hpos := cap.one_le_slots
  have hlo := Int.emod_nonneg s.toInt (b := cap.slots) (by omega)
  have hhi := Int.emod_lt_of_pos s.toInt (b := cap.slots) (by omega)
  constructor <;> omega

theorem index_eq_iff (h : row.Holds slots) :
    row.index s = row.index t ↔ (cap.slots : ℤ) ∣ s.toInt - t.toInt := by
  have hs := h.index s
  have ht := h.index t
  rw [Int.dvd_iff_emod_eq_zero, ← Int.emod_eq_emod_iff_emod_sub_eq_zero, ← UInt64.toNat_inj]
  omega

/-- Two sequences agree in cell and lap exactly if they are `2 ^ 32` laps apart, or a multiple. -/
theorem place_eq_iff (h : row.Holds slots) :
    row.index s = row.index t ∧ cap.lap s = cap.lap t ↔
      (cap.slots * 2 ^ 32 : ℤ) ∣ s.toInt - t.toInt := by
  have hplace := cap.place_eq_iff s t
  rw [cap.slot_eq_iff, Int.emod_eq_emod_iff_emod_sub_eq_zero (n := cap.slots),
    Int.emod_eq_emod_iff_emod_sub_eq_zero (n := _ * _), ← Int.dvd_iff_emod_eq_zero,
    ← Int.dvd_iff_emod_eq_zero, ← h.index_eq_iff] at hplace
  exact hplace

/-- So the sequences of `2 ^ 32` laps in a row are told apart. -/
theorem injOn_place (h : row.Holds slots) (first : ℤ) :
    Set.InjOn (fun s => (row.index s, cap.lap s))
      {s | first ≤ s.toInt ∧ s.toInt < first + cap.slots * 2 ^ 32} := by
  rintro s ⟨hs, hs'⟩ t ⟨ht, ht'⟩ hsame
  have hdvd := h.place_eq_iff.mp (Prod.mk.inj hsame)
  have hzero := Int.eq_zero_of_abs_lt_dvd hdvd (abs_sub_lt_iff.mpr ⟨by omega, by omega⟩)
  apply Int64.toInt_inj.mp
  omega

end Row.Holds

namespace Capacity
variable {size : UInt64}

theorem slots_eq_two_pow (cap : Capacity) : cap.slots = 2 ^ cap.shift := Nat.one_shiftLeft _

/-- A power of two is judged by its size alone. -/
theorem ofWord_two_pow {k : ℕ} (h : size.toNat = 2 ^ k) :
    ofWord size = if hk : k ≤ 30 then .ok ⟨k, hk⟩ else .error (.capacityTooLarge size maximum) := by
  simp only [ofWord, h, Nat.log2_two_pow, Nat.one_shiftLeft, ne_eq, not_true_eq_false, if_false]

/-- Any other size is refused as such, however large it is. -/
theorem ofWord_odd (h : ∀ k, size.toNat ≠ 2 ^ k) : ofWord size = .error (.notPowerOfTwo size) := by
  have hne : 1 <<< size.toNat.log2 ≠ size.toNat := by
    rw [Nat.one_shiftLeft]
    exact (h _).symm
  rw [ofWord, if_pos hne]

theorem ofWord_eq_ok_iff {cap : Capacity} : ofWord size = .ok cap ↔ cap.slots = size.toNat := by
  rw [slots_eq_two_pow, eq_comm (b := size.toNat)]
  constructor
  · intro h
    by_cases hpower : ∃ k, size.toNat = 2 ^ k
    · obtain ⟨k, hk⟩ := hpower
      rw [ofWord_two_pow hk] at h
      split at h
      · obtain rfl := Except.ok.inj h
        exact hk
      · simp at h
    · rw [ofWord_odd (not_exists.mp hpower)] at h
      simp at h
  · intro h
    rw [ofWord_two_pow h, dif_pos cap.shift_le]

theorem ofWord_ok_iff : (∃ cap, ofWord size = .ok cap) ↔ ∃ k ≤ 30, size.toNat = 2 ^ k := by
  simp only [ofWord_eq_ok_iff, slots_eq_two_pow]
  constructor
  · rintro ⟨cap, h⟩
    exact ⟨cap.shift, cap.shift_le, h.symm⟩
  · rintro ⟨k, hk, h⟩
    exact ⟨⟨k, hk⟩, h.symm⟩

theorem ofWord_notPowerOfTwo_iff :
    ofWord size = .error (.notPowerOfTwo size) ↔ ∀ k, size.toNat ≠ 2 ^ k := by
  refine ⟨fun h k hk => ?_, ofWord_odd⟩
  rw [ofWord_two_pow hk] at h
  split at h <;> simp at h

theorem ofWord_tooLarge_iff :
    ofWord size = .error (.capacityTooLarge size maximum) ↔ ∃ k > 30, size.toNat = 2 ^ k := by
  constructor
  · intro h
    by_cases hpower : ∃ k, size.toNat = 2 ^ k
    · obtain ⟨k, hk⟩ := hpower
      refine ⟨k, ?_, hk⟩
      by_contra hle
      rw [ofWord_two_pow hk, dif_pos (by omega)] at h
      simp at h
    · rw [ofWord_odd (not_exists.mp hpower)] at h
      simp at h
  · rintro ⟨k, hk, h⟩
    rw [ofWord_two_pow h, dif_neg (by omega)]

end Capacity

/-- A ring has a power of two of slots up to `2 ^ 30`, whatever word is asked for. In the rows
of its slots and of its flags every sequence, negative or not, addresses a cell between the
margins, at the same offset in both. Cell and lap together tell `2 ^ 32` laps of sequences apart. -/
theorem addressed_between_margins :
    (∀ size : UInt64,
      (∀ cap, Capacity.ofWord size = .ok cap ↔ cap.slots = size.toNat) ∧
      ((∃ cap, Capacity.ofWord size = .ok cap) ↔ ∃ k ≤ 30, size.toNat = 2 ^ k) ∧
      (Capacity.ofWord size = .error (.notPowerOfTwo size) ↔ ∀ k, size.toNat ≠ 2 ^ k) ∧
      (Capacity.ofWord size = .error (.capacityTooLarge size Capacity.maximum) ↔
        ∃ k > 30, size.toNat = 2 ^ k)) ∧
    ∀ {cap : Capacity} {α : Type} (slots : Slots cap α) (bytes : UInt64) (flags : LapFlags cap),
      (slots.row bytes).Holds slots ∧ flags.row.Holds flags.laps ∧
      (∀ writes : List (Int64 × α),
        writes.foldlM (fun row w => row.write w.1 w.2) (slots.row bytes) =
          some ((writes.foldl (fun slots w => slots.write w.1 w.2) slots).row bytes)) ∧
      (∀ marks : List Int64, marks.foldlM (fun row s => row.write s (cap.lap s)) flags.row =
        some (marks.foldl LapFlags.mark flags).row) ∧
      (∀ s, (slots.row bytes).Inside s ∧ flags.row.Inside s ∧
        (flags.isAvailable s ↔ flags.row.read s = some (cap.lap s))) ∧
      (∀ s t : Int64,
        ((slots.row bytes).index s = (slots.row bytes).index t ↔
          flags.row.index s = flags.row.index t) ∧
        (flags.row.index s = flags.row.index t ↔ (cap.slots : ℤ) ∣ s.toInt - t.toInt) ∧
        (flags.row.index s = flags.row.index t ∧ cap.lap s = cap.lap t ↔
          (cap.slots * 2 ^ 32 : ℤ) ∣ s.toInt - t.toInt)) ∧
      ∀ first : ℤ, Set.InjOn (fun s => (flags.row.index s, cap.lap s))
        {s | first ≤ s.toInt ∧ s.toInt < first + cap.slots * 2 ^ 32} := by
  refine ⟨fun size => ⟨fun _ => Capacity.ofWord_eq_ok_iff, Capacity.ofWord_ok_iff,
    Capacity.ofWord_notPowerOfTwo_iff, Capacity.ofWord_tooLarge_iff⟩, ?_⟩
  intro cap α slots bytes flags
  have hnarrow := (Slots.margin_bounds bytes).2
  have hslots : (slots.row bytes).Holds slots := slots.holds_between none hnarrow
  have hflags := flags.holds_row
  refine ⟨hslots, hflags, slots.writes_between none hnarrow, flags.marks_row, fun s => ?_,
    fun s t => ⟨?_, hflags.index_eq_iff, hflags.place_eq_iff⟩, hflags.injOn_place⟩
  · exact ⟨hslots.inside s, hflags.inside s, flags.isAvailable_iff_row s⟩
  · rw [hslots.index_eq_iff, hflags.index_eq_iff]

/-- Cells of 24 bytes have margins of six, and the sequence before the first is in the second of
two slots. -/
example : ((Slots.fill .two 'a').row 24).index (-1) = 7 := by decide

end LapRing
