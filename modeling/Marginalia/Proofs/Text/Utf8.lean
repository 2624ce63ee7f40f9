import Marginalia.Text.Utf8

/-!
# UTF-8 reads back

Whatever text is encoded is what its bytes are decoded to. A character has one to four bytes, and
the reader accepts the ranges of RFC 3629, which the encoder never leaves.
-/

namespace Marginalia.Text.Utf8

/-! ## The reader -/

theorem start_ascii {n : Nat} (h : n < 0x80) : start n = .whole (Char.ofNat n) := by
  rw [start, if_pos h]

theorem start_two {n : Nat} (h : 0xC2 ≤ n ∧ n ≤ 0xDF) :
    start n = .more ⟨1, 0x80, 0xBF, n - 0xC0⟩ := by
  rw [start, if_neg (by omega), if_pos h]

/-- After the first of three bytes: overlong forms and surrogates are left out. -/
theorem start_three {n : Nat} (h : 0xE0 ≤ n ∧ n ≤ 0xEF) :
    start n = .more ⟨2, if n = 0xE0 then 0xA0 else 0x80, if n = 0xED then 0x9F else 0xBF,
      n - 0xE0⟩ := by
  rw [start, if_neg (by omega), if_neg (by omega)]
  by_cases he0 : n = 0xE0
  · subst he0
    rfl
  · by_cases hed : n = 0xED
    · subst hed
      rfl
    · rw [if_neg he0, if_neg hed, if_pos (by omega), if_neg he0, if_neg hed]

/-- After the first of four bytes: overlong forms and numbers beyond the last one are left out. -/
theorem start_four {n : Nat} (h : 0xF0 ≤ n ∧ n ≤ 0xF4) :
    start n = .more ⟨3, if n = 0xF0 then 0x90 else 0x80, if n = 0xF4 then 0x8F else 0xBF,
      n - 0xF0⟩ := by
  have hcases : n = 0xF0 ∨ n = 0xF1 ∨ n = 0xF2 ∨ n = 0xF3 ∨ n = 0xF4 := by omega
  rcases hcases with rfl | rfl | rfl | rfl | rfl <;> rfl

theorem scan_whole {b : UInt8} {c : Char} (h : start b.toNat = .whole c) (rest : List UInt8) :
    scan (b :: rest) = some c :: scan rest := by
  rw [scan, h]

theorem scan_more {b : UInt8} {pending : Pending} (h : start b.toNat = .more pending)
    (rest : List UInt8) : scan (b :: rest) = scanPending pending rest := by
  rw [scan, h]

theorem toNat_ofNat {n : Nat} (h : n < 0x100) : (UInt8.ofNat n).toNat = n :=
  UInt8.toNat_ofNat_of_lt' h

/-- The last byte of a character. -/
theorem scanPending_last {lower upper code n : Nat} (h : lower ≤ n ∧ n ≤ upper) (hn : n < 0x100)
    (rest : List UInt8) :
    scanPending ⟨1, lower, upper, code⟩ (UInt8.ofNat n :: rest) =
      some (Char.ofNat (code * 64 + (n - 0x80))) :: scan rest := by
  rw [scanPending, toNat_ofNat hn, if_pos h, if_pos (Nat.le_refl 1)]

/-- A byte within a character. -/
theorem scanPending_next {owed lower upper code n : Nat} (h : lower ≤ n ∧ n ≤ upper)
    (hn : n < 0x100) (rest : List UInt8) :
    scanPending ⟨owed + 2, lower, upper, code⟩ (UInt8.ofNat n :: rest) =
      scanPending ⟨owed + 1, 0x80, 0xBF, code * 64 + (n - 0x80)⟩ rest := by
  rw [scanPending, toNat_ofNat hn, if_pos h, if_neg (by simp)]
  rfl

/-! ## Reading what was written -/

/-- A character is read back from its bytes. -/
theorem scan_encodeChar (c : Char) (rest : List UInt8) :
    scan (String.utf8EncodeChar c ++ rest) = some c :: scan rest := by
  have hvalid : c.toNat < 0xD800 ∨ 0xDFFF < c.toNat ∧ c.toNat < 0x110000 := c.valid
  have hback : Char.ofNat c.toNat = c := Char.ofNat_toNat c
  rw [String.utf8EncodeChar]
  generalize hv : c.toNat = v at hvalid hback
  simp only [show c.val.toNat = v from hv]
  by_cases hone : v ≤ 127
  · rw [if_pos hone, List.singleton_append, scan_whole (c := c)]
    rw [toNat_ofNat (by omega), start_ascii (by omega), hback]
  rw [if_neg hone]
  by_cases htwo : v ≤ 2047
  · have hfirst : (UInt8.ofNat (v / 64 % 32 + 192)).toNat = v / 64 % 32 + 192 :=
      toNat_ofNat (by omega)
    rw [if_pos htwo, List.cons_append, List.singleton_append,
      scan_more (by rw [hfirst]; exact start_two (by omega)),
      scanPending_last (by omega) (by omega)]
    rw [show (v / 64 % 32 + 192 - 0xC0) * 64 + (v % 64 + 128 - 0x80) = v by omega, hback]
  rw [if_neg htwo]
  by_cases hthree : v ≤ 65535
  · have hfirst : (UInt8.ofNat (v / 4096 % 16 + 224)).toNat = v / 4096 % 16 + 224 :=
      toNat_ofNat (by omega)
    rw [if_pos hthree, List.cons_append, List.cons_append, List.singleton_append,
      scan_more (by rw [hfirst]; exact start_three (by omega)),
      scanPending_next (by split <;> split <;> omega) (by omega),
      scanPending_last (by omega) (by omega)]
    rw [show ((v / 4096 % 16 + 224 - 0xE0) * 64 + (v / 64 % 64 + 128 - 0x80)) * 64 +
      (v % 64 + 128 - 0x80) = v by omega, hback]
  · have hfirst : (UInt8.ofNat (v / 262144 % 8 + 240)).toNat = v / 262144 % 8 + 240 :=
      toNat_ofNat (by omega)
    rw [if_neg hthree, List.cons_append, List.cons_append, List.cons_append, List.singleton_append,
      scan_more (by rw [hfirst]; exact start_four (by omega)),
      scanPending_next (by split <;> split <;> omega) (by omega),
      scanPending_next (by omega) (by omega), scanPending_last (by omega) (by omega)]
    rw [show (((v / 262144 % 8 + 240 - 0xF0) * 64 + (v / 4096 % 64 + 128 - 0x80)) * 64 +
      (v / 64 % 64 + 128 - 0x80)) * 64 + (v % 64 + 128 - 0x80) = v by omega, hback]

theorem scan_encodeChars (cs : List Char) :
    scan (cs.flatMap String.utf8EncodeChar) = cs.map some := by
  induction cs with
  | nil => rfl
  | cons c rest ih => rw [List.flatMap_cons, scan_encodeChar, ih, List.map_cons]

/-! ## Texts -/

theorem toList_loop (bytes : ByteArray) (i : Nat) (read : List UInt8) :
    ByteArray.toList.loop bytes i read = read.reverse ++ bytes.data.toList.drop i := by
  fun_induction ByteArray.toList.loop bytes i read with
  | case1 i read h ih =>
    have hlt : i < bytes.data.toList.length := h
    rw [ih, List.drop_eq_getElem_cons hlt, List.reverse_cons, List.append_assoc,
      List.singleton_append]
    congr 2
    exact getElem!_pos bytes.data i h
  | case2 i read h =>
    have hge : bytes.data.toList.length ≤ i := Nat.le_of_not_lt h
    rw [List.drop_eq_nil_of_le hge, List.append_nil]

theorem encode_eq (s : String) : encode s = s.toList.flatMap String.utf8EncodeChar := by
  rw [encode, ByteArray.toList, toList_loop, String.toUTF8, ← String.utf8Encode_toList,
    List.utf8Encode, List.toList_data_toByteArray]
  rfl

theorem mapM_map_some (cs : List Char) : (cs.map some).mapM id = some cs := by
  induction cs with
  | nil => rfl
  | cons c rest ih => rw [List.map_cons, List.mapM_cons, ih]; rfl

/-- A text is read back from its bytes. -/
@[simp] theorem decode?_encode (s : String) : decode? (encode s) = some s := by
  rw [decode?, encode_eq, scan_encodeChars, mapM_map_some, Option.map_some, String.ofList_toList]

end Marginalia.Text.Utf8
