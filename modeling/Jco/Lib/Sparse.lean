import Mathlib.Data.List.Basic

/-! # Sparse writes

A file is the list of its elements. A write sets the elements from its position on; where
the position lies beyond the end, the gap reads as `zero`. A write of nothing changes
nothing, not even the size.
-/

namespace Jco.Lib

open List

variable {α : Type*} (zero : α)

/-- The file after `data` has been written at `pos`. -/
def writeAt (file : List α) (pos : Nat) : List α → List α
  | [] => file
  | a :: rest =>
    file.take pos ++ (List.replicate (pos - file.length) zero ++
      (a :: rest ++ file.drop (pos + (rest.length + 1))))

@[simp] theorem writeAt_nil (file : List α) (pos : Nat) : writeAt zero file pos [] = file := rfl

/-- What stands in the file before the position: the gap is filled. -/
def below (file : List α) (pos : Nat) : List α :=
  file.take pos ++ List.replicate (pos - file.length) zero

theorem length_below (file : List α) (pos : Nat) : (below zero file pos).length = pos := by
  unfold below
  rw [length_append, length_take, length_replicate]
  omega

variable {file data : List α} {pos : Nat}

theorem writeAt_eq (hdata : data ≠ []) :
    writeAt zero file pos data =
      below zero file pos ++ (data ++ file.drop (pos + data.length)) := by
  cases data with
  | nil => exact absurd rfl hdata
  | cons a rest =>
    unfold writeAt below
    rw [append_assoc, length_cons]

theorem length_writeAt (hdata : data ≠ []) :
    (writeAt zero file pos data).length = max file.length (pos + data.length) := by
  rw [writeAt_eq zero hdata, length_append, length_below, length_append,
    length_drop]
  omega

/-- A write sets its own positions. -/
theorem take_drop_writeAt (file data : List α) (pos : Nat) :
    ((writeAt zero file pos data).drop pos).take data.length = data := by
  by_cases hdata : data = []
  · subst hdata
    exact take_zero
  · have hlen := length_below zero file pos
    rw [writeAt_eq zero hdata, drop_left' hlen, take_left]

/-- Element by element: what was written, what was there, and zeros in the gap. -/
theorem getElem?_writeAt (hdata : data ≠ []) (i : Nat) :
    (writeAt zero file pos data)[i]? =
      if i < pos then
        if i < file.length then file[i]? else some zero
      else if i < pos + data.length then data[i - pos]?
      else file[i]? := by
  rw [writeAt_eq zero hdata]
  by_cases hbelow : i < pos
  · rw [if_pos hbelow, List.getElem?_append_left (by rw [length_below]; exact hbelow), below]
    by_cases hin : i < file.length
    · rw [if_pos hin, List.getElem?_append_left (by rw [length_take]; omega),
        List.getElem?_take_of_lt hbelow]
    · -- the position is past the end: the gap
      rw [if_neg hin, List.getElem?_append_right (by rw [length_take]; omega),
        List.getElem?_replicate_of_lt (by rw [length_take]; omega)]
  · rw [if_neg hbelow, List.getElem?_append_right (by rw [length_below]; omega), length_below]
    by_cases hin : i < pos + data.length
    · rw [if_pos hin, List.getElem?_append_left (by omega)]
    · rw [if_neg hin, List.getElem?_append_right (by omega), List.getElem?_drop]
      congr 1
      omega

/-- A write that starts where another ended is one write. -/
theorem writeAt_append (file first second : List α) (pos : Nat) :
    writeAt zero (writeAt zero file pos first) (pos + first.length) second =
      writeAt zero file pos (first ++ second) := by
  by_cases hfirst : first = []
  · subst hfirst
    rfl
  · by_cases hsecond : second = []
    · subst hsecond
      rw [writeAt_nil, append_nil]
    · have hboth : first ++ second ≠ [] := by simp [hfirst]
      apply ext_getElem?
      intro i
      rw [getElem?_writeAt zero hsecond, getElem?_writeAt zero hfirst,
        getElem?_writeAt zero hboth, length_writeAt zero hfirst, length_append]
      by_cases hbelow : i < pos
      · rw [if_pos (by omega), if_pos (by omega), if_pos hbelow, if_pos hbelow]
      · rw [if_neg hbelow, if_neg hbelow]
        by_cases hin : i < pos + first.length
        · rw [if_pos hin, if_pos (by omega), if_pos hin, if_pos (by omega),
            List.getElem?_append_left (by omega)]
        · rw [if_neg hin, if_neg hin, List.getElem?_append_right (by omega)]
          have hshift : i - (pos + first.length) = i - pos - first.length := by omega
          have hend : (i < pos + first.length + second.length) ↔
              (i < pos + (first.length + second.length)) := by omega
          rw [hshift, if_congr hend rfl rfl]

/-- A write within a slice is a write to the slice. -/
theorem slice_writeAt {first len pos : Nat} (hin : first + len ≤ file.length)
    (hpos : pos + data.length ≤ len) :
    ((writeAt zero file (first + pos) data).drop first).take len =
      writeAt zero ((file.drop first).take len) pos data := by
  by_cases hdata : data = []
  · subst hdata
    rfl
  · apply ext_getElem?
    intro i
    have hslice : ((file.drop first).take len).length = len := by
      rw [length_take, length_drop]
      omega
    rw [getElem?_writeAt zero hdata, List.getElem?_take, List.getElem?_drop,
      getElem?_writeAt zero hdata, List.getElem?_take, List.getElem?_drop, hslice]
    by_cases hlen : i < len
    · have hfile : first + i < file.length := by omega
      have hbelow : first + i < first + pos ↔ i < pos := by omega
      have hend : first + i < first + pos + data.length ↔ i < pos + data.length := by omega
      have hshift : first + i - (first + pos) = i - pos := by omega
      rw [if_pos hlen, if_pos hlen, if_pos hfile, if_congr hbelow rfl rfl, if_congr hend rfl rfl,
        hshift, if_pos hlen]
    · rw [if_neg hlen, if_neg (by omega), if_neg (by omega), if_neg hlen]

/-- A write into a longer file that starts with this one, once the gap is zeroed: its
beginning is what the write makes of this one. -/
theorem take_writeAt_zeroed {file larger data : List α} (hdata : data ≠ [])
    (hbegin : larger.take file.length = file) (hlen : file.length ≤ larger.length)
    (hpos : pos + data.length ≤ larger.length) :
    (writeAt zero
        (writeAt zero larger file.length (List.replicate (pos - file.length) zero)) pos data).take
          (max file.length (pos + data.length)) =
      writeAt zero file pos data := by
  have hold (i : Nat) (hi : i < file.length) : larger[i]? = file[i]? := by
    rw [← List.getElem?_take_of_lt hi, hbegin]
  have hzeroed (i : Nat) (hi : i < larger.length) :
      (writeAt zero larger file.length (List.replicate (pos - file.length) zero))[i]? =
        if file.length ≤ i ∧ i < pos then some zero else larger[i]? := by
    by_cases hgap : List.replicate (pos - file.length) zero = []
    · rw [hgap, writeAt_nil, if_neg]
      have hnone := congrArg List.length hgap
      rw [length_replicate, length_nil] at hnone
      omega
    · rw [getElem?_writeAt zero hgap, length_replicate]
      by_cases hbelow : i < file.length
      · rw [if_pos hbelow, if_pos hi, if_neg (by omega)]
      · rw [if_neg hbelow]
        by_cases hin : i < pos
        · rw [if_pos (by omega), if_pos (by omega), List.getElem?_replicate_of_lt (by omega)]
        · rw [if_neg (by omega), if_neg (by omega)]
  have hsize : (writeAt zero larger file.length
      (List.replicate (pos - file.length) zero)).length = larger.length := by
    by_cases hgap : List.replicate (pos - file.length) zero = []
    · rw [hgap, writeAt_nil]
    · have hroom : 0 < data.length := length_pos_of_ne_nil hdata
      rw [length_writeAt zero hgap, length_replicate]
      omega
  apply ext_getElem?
  intro i
  rw [List.getElem?_take, getElem?_writeAt zero hdata, getElem?_writeAt zero hdata, hsize]
  by_cases hin : i < max file.length (pos + data.length)
  · have hi : i < larger.length := by omega
    rw [if_pos hin, if_pos hi, hzeroed i hi]
    by_cases hbelow : i < pos
    · rw [if_pos hbelow, if_pos hbelow]
      by_cases hfile : i < file.length
      · rw [if_neg (by omega), if_pos hfile, hold i hfile]
      · rw [if_pos (by omega), if_neg hfile]
    · rw [if_neg hbelow, if_neg hbelow]
      by_cases hend : i < pos + data.length
      · rw [if_pos hend, if_pos hend]
      · rw [if_neg hend, if_neg hend, if_neg (by omega), hold i (by omega)]
  · rw [if_neg hin, if_neg (by omega), if_neg (by omega), List.getElem?_eq_none (by omega)]

end Jco.Lib
