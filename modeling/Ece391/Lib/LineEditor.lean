import Mathlib.Data.List.Basic

/-! # Lines typed at a keyboard

What a user types is a sequence of lines, each ended by Enter and edited by erasing its
last character. The text is not bounded; a buffer of bounded size holds its beginning.
-/

namespace LineEditor

universe u

variable {α : Type u}

/-- What a key means to the line. -/
inductive Key (α : Type u) where
  | char (c : α)
  | erase
  | enter
  | idle
  deriving DecidableEq

/-- The lines that were entered, oldest first, and the text of the open one. -/
structure Typed (α : Type u) where
  lines : List (List α)
  text : List α
  deriving DecidableEq

def Typed.press (typed : Typed α) : Key α → Typed α
  | .char c => { typed with text := typed.text ++ [c] }
  | .erase => { typed with text := typed.text.dropLast }
  | .enter => ⟨typed.lines ++ [typed.text], []⟩
  | .idle => typed

/-- The lines of a sequence of keys. -/
def typing (keys : List (Key α)) : Typed α := keys.foldl Typed.press ⟨[], []⟩

@[simp] theorem typing_nil : typing ([] : List (Key α)) = ⟨[], []⟩ := rfl

theorem typing_snoc (keys : List (Key α)) (key : Key α) :
    typing (keys ++ [key]) = (typing keys).press key := List.foldl_append

/-! ## A line with a bound -/

universe v

variable {β : Type v}

def Key.map (f : α → β) : Key α → Key β
  | .char c => .char (f c)
  | .erase => .erase
  | .enter => .enter
  | .idle => .idle

/-- A key at a line that takes at most `size` characters. -/
def edit (size : Nat) (line : List α) : Key α → List α
  | .char c => if line.length < size then line ++ [c] else line
  | .erase => line.dropLast
  | .enter | .idle => line

/-- Where the characters of the line come from does not matter to the editing. -/
theorem map_edit (f : α → β) (size : Nat) (line : List α) (key : Key α) :
    (edit size line key).map f = edit size (line.map f) (key.map f) := by
  cases key with
  | char c =>
      rw [edit, Key.map, edit, List.length_map]
      split
      · rw [List.map_append, List.map_singleton]
      · rfl
  | erase => exact List.map_dropLast
  | enter | idle => rfl

theorem edit_length_le {size : Nat} {line : List α} (key : Key α) (hline : line.length ≤ size) :
    (edit size line key).length ≤ size := by
  cases key with
  | char c =>
      rw [edit]
      split
      · next hroom =>
        rw [List.length_append, List.length_singleton]
        exact hroom
      · exact hline
  | erase =>
      rw [edit, List.length_dropLast]
      omega
  | enter | idle => exact hline

/-! ## The beginning of a text -/

theorem take_snoc_of_lt {text : List α} {size : Nat} (c : α) (hroom : text.length < size) :
    (text ++ [c]).take size = text.take size ++ [c] := by
  rw [List.take_of_length_le (Nat.le_of_lt hroom), List.take_of_length_le]
  rw [List.length_append, List.length_singleton]
  exact hroom

/-- Erasing commutes with cutting only when nothing is cut. -/
theorem take_dropLast {text : List α} {size : Nat} (hfits : text.length ≤ size) :
    text.dropLast.take size = (text.take size).dropLast := by
  rw [List.take_of_length_le hfits, List.take_of_length_le]
  rw [List.length_dropLast]
  omega

end LineEditor
