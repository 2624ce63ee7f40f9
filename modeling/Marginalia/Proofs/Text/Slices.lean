import Mathlib
import Marginalia.Text.Blank

/-!
# Byte positions

A position in a text can be given as a number of bytes of its UTF-8 form. Not every number is a
position: a text can be cut only between two characters, which is where its bytes show that a
character starts. In a text of ASCII characters the positions are those of the characters, and what
is equal to such a text but for the case of its letters is one itself.
-/

namespace Marginalia.Text

/-- Whether a character takes one byte. -/
def isAscii (c : Char) : Bool := c.toNat < 128

/-- The number of bytes of a text. -/
def byteLength (s : List Char) : Nat := s.foldr (fun c bytes ↦ c.utf8Size + bytes) 0

/-- Cut a text after some bytes; within a character and beyond the end there is no place to cut. -/
def cutAtByte? : Nat → List Char → Option (List Char × List Char)
  | 0, s => some ([], s)
  | _ + 1, [] => none
  | n + 1, c :: cs =>
    if n + 1 < c.utf8Size then none
    else (cutAtByte? (n + 1 - c.utf8Size) cs).map fun (before, after) ↦ (c :: before, after)

/-- The part of a text between two numbers of bytes. -/
def slice? (start stop : Nat) (s : List Char) : Option (List Char) := do
  let (before, _) ← cutAtByte? stop s
  let (_, part) ← cutAtByte? start before
  return part

/-- The bytes of a text. -/
def bytes (s : List Char) : List UInt8 := s.flatMap String.utf8EncodeChar

/-- Whether there is a place to cut a text after some bytes, as its bytes show it: a character
starts with the next one, or there is none. -/
def isBoundary (n : Nat) (s : List Char) : Bool :=
  match (bytes s)[n]? with
  | none => n == (bytes s).length
  | some b => b.IsUTF8FirstByte

/-! ## Places to cut -/

@[simp] theorem byteLength_nil : byteLength [] = 0 := rfl

@[simp] theorem byteLength_cons (c : Char) (cs : List Char) :
    byteLength (c :: cs) = c.utf8Size + byteLength cs := rfl

@[simp] theorem byteLength_append (s t : List Char) :
    byteLength (s ++ t) = byteLength s + byteLength t := by
  induction s with
  | nil => simp
  | cons c cs ih => rw [List.cons_append, byteLength_cons, ih, byteLength_cons, Nat.add_assoc]

@[simp] theorem bytes_cons (c : Char) (cs : List Char) :
    bytes (c :: cs) = String.utf8EncodeChar c ++ bytes cs := List.flatMap_cons

@[simp] theorem length_bytes (s : List Char) : (bytes s).length = byteLength s := by
  induction s with
  | nil => rfl
  | cons c cs ih => rw [bytes_cons, List.length_append, ih, String.length_utf8EncodeChar,
      byteLength_cons]

theorem cutAtByte?_byteLength (before after : List Char) :
    cutAtByte? (byteLength before) (before ++ after) = some (before, after) := by
  induction before with
  | nil => rw [byteLength_nil, List.nil_append, cutAtByte?]
  | cons c cs ih =>
    have hsize := c.utf8Size_pos
    obtain ⟨n, hn⟩ : ∃ n, byteLength (c :: cs) = n + 1 := Nat.exists_eq_succ_of_ne_zero (by
      rw [byteLength_cons]; omega)
    rw [byteLength_cons] at hn
    rw [byteLength_cons, hn, List.cons_append, cutAtByte?, if_neg (by omega),
      show n + 1 - c.utf8Size = byteLength cs by omega, ih]
    rfl

/-- A cut leaves the bytes before it and loses nothing. -/
theorem eq_append_of_cutAtByte? {n : Nat} {s before after : List Char}
    (h : cutAtByte? n s = some (before, after)) : s = before ++ after ∧ byteLength before = n := by
  induction s generalizing n before with
  | nil =>
    cases n with
    | zero => simp_all [cutAtByte?]
    | succ n => simp [cutAtByte?] at h
  | cons c cs ih =>
    cases n with
    | zero =>
      obtain ⟨rfl, rfl⟩ := Prod.mk.inj (Option.some.inj h)
      exact ⟨rfl, rfl⟩
    | succ n =>
      rw [cutAtByte?] at h
      split at h
      · cases h
      · next hsize =>
        obtain ⟨⟨b, a⟩, hcut, hpair⟩ := Option.map_eq_some_iff.mp h
        obtain ⟨rfl, rfl⟩ := Prod.mk.inj hpair
        obtain ⟨hcs, hb⟩ := ih hcut
        refine ⟨congrArg (List.cons c) hcs, ?_⟩
        rw [byteLength_cons, hb]
        omega

/-- A text can be cut exactly where its bytes show a place to cut it. -/
theorem isSome_cutAtByte? (n : Nat) (s : List Char) :
    (cutAtByte? n s).isSome = isBoundary n s := by
  induction s generalizing n with
  | nil => cases n <;> rfl
  | cons c cs ih =>
    rw [isBoundary, bytes_cons]
    by_cases hn : n < c.utf8Size
    · have hbyte : n < (String.utf8EncodeChar c).length := by rwa [String.length_utf8EncodeChar]
      rw [List.getElem?_append_left hbyte, List.getElem?_eq_getElem hbyte]
      dsimp only
      rw [decide_eq_decide.mpr UInt8.isUTF8FirstByte_getElem_utf8EncodeChar]
      cases n with
      | zero => rfl
      | succ n => simp [cutAtByte?, hn]
    · have hlength : (String.utf8EncodeChar c).length ≤ n := by
        rw [String.length_utf8EncodeChar]; omega
      rw [List.getElem?_append_right hlength, String.length_utf8EncodeChar]
      have hcut : (cutAtByte? n (c :: cs)).isSome = (cutAtByte? (n - c.utf8Size) cs).isSome := by
        cases n with
        | zero => exact absurd c.utf8Size_pos hn
        | succ n => rw [cutAtByte?, if_neg hn, Option.isSome_map]
      rw [hcut, ih, isBoundary, length_bytes, List.length_append, String.length_utf8EncodeChar,
        length_bytes]
      have hend : (n - c.utf8Size == byteLength cs) = (n == c.utf8Size + byteLength cs) := by
        rw [Bool.eq_iff_iff, beq_iff_eq, beq_iff_eq]
        omega
      rw [hend]

/-! ## Texts of ASCII characters -/

theorem utf8Size_of_isAscii {c : Char} (h : isAscii c = true) : c.utf8Size = 1 := by
  have hlt : c.toNat < 128 := by simpa [isAscii] using h
  exact Char.utf8Size_eq_one_iff.mpr (UInt32.le_iff_toNat_le.mpr (Nat.le_of_lt_succ hlt))

section
variable {s : List Char} (h : s.all isAscii = true)
include h

theorem byteLength_of_isAscii : byteLength s = s.length := by
  induction s with
  | nil => rfl
  | cons c cs ih =>
    obtain ⟨hc, hcs⟩ := Bool.and_eq_true_iff.mp (List.all_cons ▸ h)
    have hrest := ih hcs
    rw [byteLength] at hrest ⊢
    rw [List.foldr_cons, hrest, utf8Size_of_isAscii hc, List.length_cons, Nat.add_comm]

theorem cutAtByte?_of_isAscii {n : Nat} (hn : n ≤ s.length) :
    cutAtByte? n s = some (s.take n, s.drop n) := by
  induction s generalizing n with
  | nil =>
    obtain rfl := Nat.le_zero.mp hn
    rfl
  | cons c cs ih =>
    obtain ⟨hc, hcs⟩ := Bool.and_eq_true_iff.mp (List.all_cons ▸ h)
    cases n with
    | zero => rfl
    | succ n =>
      rw [cutAtByte?, utf8Size_of_isAscii hc, if_neg (by omega), Nat.add_sub_cancel,
        ih hcs (Nat.le_of_succ_le_succ hn)]
      rfl

theorem slice?_of_isAscii {start stop : Nat} (hstart : start ≤ stop) (hstop : stop ≤ s.length) :
    slice? start stop s = some ((s.take stop).drop start) := by
  have hbefore : (s.take stop).all isAscii = true :=
    List.all_eq_true.mpr fun c hc ↦ List.all_eq_true.mp h c (List.mem_of_mem_take hc)
  have hlength : start ≤ (s.take stop).length := by
    rw [List.length_take, Nat.min_eq_left hstop]
    exact hstart
  simp [slice?, cutAtByte?_of_isAscii h hstop, cutAtByte?_of_isAscii hbefore hlength]

end

/-! ## Letter case -/

theorem lowerAscii_eq_toLower (c : Char) : lowerAscii c = c.toLower := by
  have hupper : c.isUpper = true ↔ 'A' ≤ c ∧ c ≤ 'Z' := by
    simp [Char.isUpper, Char.le_def]
  by_cases h : c.isUpper = true
  · rw [lowerAscii, if_pos (hupper.mp h), Char.toLower_eq_of_isUpper h]
  · rw [lowerAscii, if_neg (mt hupper.mpr h), Char.toLower_eq_of_not_isUpper h]

theorem isAscii_of_toLower {c : Char} (h : isAscii c.toLower = true) : isAscii c = true := by
  by_cases hupper : c.isUpper = true
  · have hle : c ≤ 'Z' := by
      rw [Char.isUpper, decide_eq_true_iff] at hupper
      exact hupper.2
    exact decide_eq_true (Nat.lt_of_le_of_lt hle (by decide : ('Z').toNat < 128))
  · rwa [Char.toLower_eq_of_not_isUpper hupper] at h

theorem isAscii_of_map_toLower {s pattern : List Char} (h : s.map Char.toLower = pattern)
    (hpattern : pattern.all isAscii = true) : s.all isAscii = true := by
  rw [← h, List.all_map, List.all_eq_true] at hpattern
  exact List.all_eq_true.mpr fun c hc ↦ isAscii_of_toLower (hpattern c hc)

end Marginalia.Text
