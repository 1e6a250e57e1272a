/-!
# Byte offsets in text

Positions in a script are UTF-8 byte offsets, while a script itself is a list of
characters. This module measures characters in bytes and cuts a text at byte
offsets. An offset is a boundary when no character straddles it; the end of the
text is a boundary too.
-/

namespace BuildScript.Text

def byteLength : List Char → Nat
  | [] => 0
  | c :: cs => c.utf8Size + byteLength cs

/-- What is left after the first `count` bytes. -/
def dropBytes : Nat → List Char → List Char
  | 0, cs => cs
  | _ + 1, [] => []
  | count + 1, c :: cs => dropBytes (count + 1 - c.utf8Size) cs

/-- The whole characters among the first `count` bytes. -/
def takeBytes : Nat → List Char → List Char
  | _, [] => []
  | count, c :: cs =>
      if c.utf8Size ≤ count then c :: takeBytes (count - c.utf8Size) cs else []

def slice (start stop : Nat) (cs : List Char) : List Char :=
  takeBytes (stop - start) (dropBytes start cs)

/-- Whether a character starts at the offset, or the text ends there. -/
def isBoundary : Nat → List Char → Bool
  | 0, _ => true
  | _ + 1, [] => false
  | offset + 1, c :: cs =>
      decide (c.utf8Size ≤ offset + 1) && isBoundary (offset + 1 - c.utf8Size) cs

/-- Every character with the offset at which it starts, counted from `start`. -/
def withOffsets (start : Nat) : List Char → List (Nat × Char)
  | [] => []
  | c :: cs => (start, c) :: withOffsets (start + c.utf8Size) cs

/-! ## Cutting where a part ends -/

@[simp]
theorem byteLength_nil : byteLength [] = 0 := rfl

@[simp]
theorem byteLength_cons (c : Char) (cs : List Char) :
    byteLength (c :: cs) = c.utf8Size + byteLength cs := rfl

@[simp]
theorem byteLength_append (front back : List Char) :
    byteLength (front ++ back) = byteLength front + byteLength back := by
  induction front with
  | nil => simp
  | cons c cs ih => simp [ih, Nat.add_assoc]

theorem dropBytes_zero (cs : List Char) : dropBytes 0 cs = cs := by
  cases cs <;> rfl

theorem dropBytes_append (front back : List Char) :
    dropBytes (byteLength front) (front ++ back) = back := by
  induction front with
  | nil => exact dropBytes_zero back
  | cons c cs ih =>
      have positive : 0 < c.utf8Size := Char.utf8Size_pos c
      obtain ⟨rest, total⟩ : ∃ rest, c.utf8Size + byteLength cs = rest + 1 :=
        ⟨c.utf8Size + byteLength cs - 1, by omega⟩
      rw [byteLength_cons, total, List.cons_append, dropBytes]
      rw [show rest + 1 - c.utf8Size = byteLength cs by omega]
      exact ih

theorem takeBytes_append (front back : List Char) :
    takeBytes (byteLength front) (front ++ back) = front := by
  induction front with
  | nil =>
      cases back with
      | nil => rfl
      | cons c cs =>
          have positive : 0 < c.utf8Size := Char.utf8Size_pos c
          rw [List.nil_append, takeBytes, byteLength_nil, if_neg (by omega)]
  | cons c cs ih =>
      rw [List.cons_append, takeBytes, byteLength_cons, if_pos (by omega),
        Nat.add_sub_cancel_left, ih]

/-- A slice between two part ends is the part between them. -/
theorem slice_append (front middle back : List Char) :
    slice (byteLength front) (byteLength front + byteLength middle)
      (front ++ (middle ++ back)) = middle := by
  rw [slice, dropBytes_append, Nat.add_sub_cancel_left, takeBytes_append]

end BuildScript.Text
