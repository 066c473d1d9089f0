import Mathlib.Algebra.Group.Nat.Defs
import QueryTypes.Text.Utf8

/-!
# Bytes of characters

The first byte of a character says how many follow, and what may follow it is bounded such that no
other character has the same bytes. Main statement: the loose reading of bytes reads back every text
that they were made from.
-/

namespace QueryTypes.Text

/-! ### Bytes as lists -/

theorem toList_loop (bs : ByteArray) (i : Nat) (r : List UInt8) :
    ByteArray.toList.loop bs i r = r.reverse ++ bs.data.toList.drop i := by
  fun_induction ByteArray.toList.loop bs i r with
  | case1 i r hlt ih =>
    have hlength : i < bs.data.toList.length := hlt
    have hget : bs.get! i = bs.data.toList[i] := by
      change bs.data[i]! = _
      rw [getElem!_pos bs.data i hlt]
      rfl
    rw [ih, List.reverse_cons, List.append_assoc, List.singleton_append, hget,
      List.getElem_cons_drop]
  | case2 i r hge =>
    have hlength : bs.data.toList.length ≤ i := Nat.le_of_not_lt hge
    rw [List.drop_eq_nil_of_le hlength, List.append_nil]

theorem toList_encode (s : String) : (encode s).toList = s.toList.flatMap String.utf8EncodeChar := by
  have hbytes : encode s = s.toList.utf8Encode := by
    rw [encode, String.toUTF8_eq_toByteArray, ← String.toByteArray_ofList, String.ofList_toList]
  rw [ByteArray.toList, toList_loop, hbytes, List.utf8Encode, List.data_toByteArray]
  rfl

/-! ### What follows a first byte -/

/-- Bytes that continue a character, the first of them between the bounds. -/
def Continues (lo hi : Nat) : List Nat → Prop
  | [] => True
  | b :: r => (lo ≤ b ∧ b ≤ hi) ∧ Continues 0x80 0xBF r

theorem tailBytes_append {lo hi : Nat} {tail : List Nat} (h : Continues lo hi tail) (r : List Nat) :
    tailBytes lo hi tail.length (tail ++ r) = tail := by
  induction tail generalizing lo hi with
  | nil => rfl
  | cons b tail ih =>
    obtain ⟨hb, htail⟩ := h
    rw [List.length_cons, List.cons_append, tailBytes, if_pos hb, ih htail]

/-- The number that a first byte and those that follow it stand for. -/
def codePoint (b : Nat) (tail : List Nat) : Nat :=
  tail.foldl (fun v t => v * 64 + (t - 0x80))
    (if tail.length + 1 = 1 then b else b % 2 ^ (7 - (tail.length + 1)))

/-- What is read from a first byte on, by what it says of the bytes that follow it. -/
def decodeFrom (n b : Nat) (r : List Nat) : Option (Nat × Nat × Nat) → List Char
  | none => '\uFFFD' :: decodeLoosely n r
  | some (size, lo, hi) =>
    let tail := tailBytes lo hi (size - 1) r
    let rest := decodeLoosely n (r.drop tail.length)
    if tail.length + 1 < size then '\uFFFD' :: rest
    else
      let head := if size = 1 then b else b % 2 ^ (7 - size)
      Char.ofNat (tail.foldl (fun v t => v * 64 + (t - 0x80)) head) :: rest

theorem decodeLoosely_succ (n b : Nat) (r : List Nat) :
    decodeLoosely (n + 1) (b :: r) = decodeFrom n b r (leadByte b) := rfl

theorem decodeLoosely_cons {b lo hi : Nat} {tail : List Nat}
    (hlead : leadByte b = some (tail.length + 1, lo, hi)) (htail : Continues lo hi tail)
    (n : Nat) (r : List Nat) :
    decodeLoosely (n + 1) (b :: (tail ++ r)) = Char.ofNat (codePoint b tail) :: decodeLoosely n r := by
  rw [decodeLoosely_succ, hlead, decodeFrom]
  simp only [Nat.add_sub_cancel, tailBytes_append htail, List.drop_left]
  rw [if_neg (Nat.lt_irrefl _)]
  rfl

/-! ### Characters -/

def charBytes (c : Char) : List Nat := (String.utf8EncodeChar c).map UInt8.toNat

theorem charBytes_eq (c : Char) : charBytes c =
    if c.toNat ≤ 127 then [c.toNat]
    else if c.toNat ≤ 2047 then [c.toNat / 64 % 32 + 192, c.toNat % 64 + 128]
    else if c.toNat ≤ 65535 then
      [c.toNat / 4096 % 16 + 224, c.toNat / 64 % 64 + 128, c.toNat % 64 + 128]
    else [c.toNat / 262144 % 8 + 240, c.toNat / 4096 % 64 + 128, c.toNat / 64 % 64 + 128,
      c.toNat % 64 + 128] := by
  have hval : c.val.toNat = c.toNat := rfl
  have hbyte {n : Nat} (h : n < 256) : (UInt8.ofNat n).toNat = n := UInt8.toNat_ofNat_of_lt' h
  simp only [charBytes, String.utf8EncodeChar, hval]
  split
  · simp (disch := omega) only [List.map_cons, List.map_nil, hbyte]
  · split
    · simp (disch := omega) only [List.map_cons, List.map_nil, hbyte]
    · split
      · simp (disch := omega) only [List.map_cons, List.map_nil, hbyte]
      · simp (disch := omega) only [List.map_cons, List.map_nil, hbyte]

/-- A first byte for three bytes: of those that start like a character of two, and of those that
stand for no character, the second byte is bounded. -/
theorem leadByte_three {v : Nat} (hlo : 2048 ≤ v) (hhi : v ≤ 65535)
    (hvalid : v < 0xD800 ∨ 0xDFFF < v) : ∃ lo hi, leadByte (v / 4096 % 16 + 224) = some (3, lo, hi) ∧
      lo ≤ v / 64 % 64 + 128 ∧ v / 64 % 64 + 128 ≤ hi := by
  rw [leadByte, if_neg (by omega), if_neg (by omega)]
  split
  · exact ⟨_, _, rfl, by omega, by omega⟩
  · split
    · exact ⟨_, _, rfl, by omega, by omega⟩
    · rw [if_pos (by omega)]
      exact ⟨_, _, rfl, by omega, by omega⟩

/-- A first byte for four bytes: of those that start like a character of three, and of those beyond
the last character, the second byte is bounded. -/
theorem leadByte_four {v : Nat} (hlo : 65536 ≤ v) (hhi : v < 0x110000) :
    ∃ lo hi, leadByte (v / 262144 % 8 + 240) = some (4, lo, hi) ∧
      lo ≤ v / 4096 % 64 + 128 ∧ v / 4096 % 64 + 128 ≤ hi := by
  rw [leadByte, if_neg (by omega), if_neg (by omega), if_neg (by omega), if_neg (by omega),
    if_neg (by omega)]
  split
  · exact ⟨_, _, rfl, by omega, by omega⟩
  · split
    · exact ⟨_, _, rfl, by omega, by omega⟩
    · rw [if_pos (by omega)]
      exact ⟨_, _, rfl, by omega, by omega⟩

/-- The bytes of a character are a first byte and as many more as it asks for. -/
theorem exists_charBytes (c : Char) : ∃ b tail lo hi, charBytes c = b :: tail ∧
    leadByte b = some (tail.length + 1, lo, hi) ∧ Continues lo hi tail ∧ codePoint b tail = c.toNat := by
  have hvalid : c.toNat < 0xD800 ∨ 0xDFFF < c.toNat ∧ c.toNat < 0x110000 := c.valid
  rw [charBytes_eq]
  generalize c.toNat = v at hvalid
  split
  · exact ⟨_, _, 0x80, 0xBF, rfl, if_pos (by omega), trivial, rfl⟩
  · split
    · refine ⟨_, _, 0x80, 0xBF, rfl, ?_, ⟨by omega, trivial⟩, ?_⟩
      · rw [leadByte, if_neg (by omega), if_pos (by omega)]
        rfl
      · change (v / 64 % 32 + 192) % 32 * 64 + (v % 64 + 128 - 128) = v
        omega
    · split
      · obtain ⟨lo, hi, hlead, hbounds⟩ := leadByte_three (v := v) (by omega) (by omega) (by omega)
        refine ⟨_, _, lo, hi, rfl, hlead, ⟨hbounds, by omega, trivial⟩, ?_⟩
        change ((v / 4096 % 16 + 224) % 16 * 64 + (v / 64 % 64 + 128 - 128)) * 64 +
          (v % 64 + 128 - 128) = v
        omega
      · obtain ⟨lo, hi, hlead, hbounds⟩ := leadByte_four (v := v) (by omega) (by omega)
        refine ⟨_, _, lo, hi, rfl, hlead, ⟨hbounds, by omega, by omega, trivial⟩, ?_⟩
        change (((v / 262144 % 8 + 240) % 8 * 64 + (v / 4096 % 64 + 128 - 128)) * 64 +
          (v / 64 % 64 + 128 - 128)) * 64 + (v % 64 + 128 - 128) = v
        omega

theorem decodeLoosely_char (c : Char) (n : Nat) (r : List Nat) :
    decodeLoosely (n + 1) (charBytes c ++ r) = c :: decodeLoosely n r := by
  obtain ⟨b, tail, lo, hi, hbytes, hlead, htail, hpoint⟩ := exists_charBytes c
  rw [hbytes, List.cons_append, decodeLoosely_cons hlead htail, hpoint, Char.ofNat_toNat]

/-- Bytes of a text are read as the text. -/
theorem decodeLoosely_text (s : List Char) {n : Nat} (hn : (s.flatMap charBytes).length ≤ n) :
    decodeLoosely n (s.flatMap charBytes) = s := by
  induction s generalizing n with
  | nil => cases n <;> rfl
  | cons c s ih =>
    obtain ⟨b, tail, -, -, hbytes, -⟩ := exists_charBytes c
    rw [List.flatMap_cons, List.length_append, hbytes, List.length_cons] at hn
    obtain ⟨m, rfl⟩ : ∃ m, n = m + 1 := ⟨n - 1, by omega⟩
    rw [List.flatMap_cons, decodeLoosely_char, ih (by omega)]

theorem map_toNat_encode (s : String) :
    (encode s).toList.map UInt8.toNat = s.toList.flatMap charBytes := by
  rw [toList_encode, List.map_flatMap]
  rfl

end QueryTypes.Text
