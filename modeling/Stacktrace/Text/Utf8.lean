import Stacktrace.Text.Basic

/-!
Texts from UTF-8. The bytes are taken one at a time: a byte begins a character, goes on with one,
or shows that the bytes read so far are no part of any. Each such stretch of bytes, as long as it
can be, counts as one fault; a text is read strictly, without faults, or with a replacement
character for each. Offsets into a text can be counted in its UTF-8 bytes.
-/

namespace Stacktrace.Text.Utf8

/-- A character of which some bytes are still missing: how many, the least and the greatest value
of the next one, and the value of the bits read so far. -/
structure Unfinished where
  missing : Nat
  least : Nat
  greatest : Nat
  bits : Nat

/-- What has been read: a character, or `none` for a fault. -/
abbrev Piece := Option Char

/-- What a byte between two characters gives, and the character that it begins. -/
def start (b : Nat) : List Piece × Option Unfinished :=
  if b < 0x80 then ([some (Char.ofNat b)], none)
  else if 0xC2 ≤ b ∧ b ≤ 0xDF then ([], some ⟨1, 0x80, 0xBF, b - 0xC0⟩)
  else if b = 0xE0 then ([], some ⟨2, 0xA0, 0xBF, 0⟩)
  else if b = 0xED then ([], some ⟨2, 0x80, 0x9F, 0xD⟩)
  else if 0xE1 ≤ b ∧ b ≤ 0xEF then ([], some ⟨2, 0x80, 0xBF, b - 0xE0⟩)
  else if b = 0xF0 then ([], some ⟨3, 0x90, 0xBF, 0⟩)
  else if 0xF1 ≤ b ∧ b ≤ 0xF3 then ([], some ⟨3, 0x80, 0xBF, b - 0xF0⟩)
  else if b = 0xF4 then ([], some ⟨3, 0x80, 0x8F, 4⟩)
  else ([none], none)

/-- What the next byte gives, and the character that is unfinished after it. -/
def next (b : Nat) : Option Unfinished → List Piece × Option Unfinished
  | none => start b
  | some u =>
    if u.least ≤ b ∧ b ≤ u.greatest then
      let bits := u.bits * 64 + (b - 0x80)
      if u.missing = 1 then ([some (Char.ofNat bits)], none)
      else ([], some ⟨u.missing - 1, 0x80, 0xBF, bits⟩)
    else
      let (pieces, after) := start b
      (none :: pieces, after)

def pieces : Option Unfinished → List UInt8 → List Piece
  | none, [] => []
  | some _, [] => [none]
  | u, b :: bs => (next b.toNat u).1 ++ pieces (next b.toNat u).2 bs

end Utf8

def ofUtf8? (bytes : List UInt8) : Option Text := (Utf8.pieces none bytes).mapM id

/-- The text of UTF-8, with U+FFFD in the place of each fault. -/
def ofUtf8Lossy (bytes : List UInt8) : Text := (Utf8.pieces none bytes).map (·.getD '\ufffd')

def byteSize : Text → Nat
  | [] => 0
  | c :: t => c.utf8Size + byteSize t

/-- The text from a byte offset on, counted in UTF-8, if a character starts there or the text
ends there. -/
def dropBytes? : Text → Nat → Option Text
  | t, 0 => some t
  | [], _ + 1 => none
  | c :: t, n + 1 => if c.utf8Size ≤ n + 1 then dropBytes? t (n + 1 - c.utf8Size) else none

theorem dropBytes?_append (t rest : Text) : dropBytes? (t ++ rest) t.byteSize = some rest := by
  induction t with
  | nil => cases rest <;> rfl
  | cons c t ih =>
    have hpos : 0 < c.utf8Size := c.utf8Size_pos
    have hsize : byteSize (c :: t) = c.utf8Size + byteSize t := rfl
    obtain ⟨n, hn⟩ : ∃ n, byteSize (c :: t) = n + 1 := ⟨byteSize (c :: t) - 1, by omega⟩
    have hle : c.utf8Size ≤ n + 1 := by omega
    have hrest : n + 1 - c.utf8Size = byteSize t := by omega
    simp [hn, dropBytes?, hle, hrest, ih]

end Stacktrace.Text
