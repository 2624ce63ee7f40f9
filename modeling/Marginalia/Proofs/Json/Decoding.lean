import Marginalia.Json.Decode
import Marginalia.Proofs.Decimal.Finite
import Marginalia.Proofs.Json.Reading

/-!
# Fields read back

A natural number is decoded from what is written for it. A number without a finite value is written
as `null`, which is no number to the reader.
-/

namespace Marginalia.Json

open Decimal

/-! ## Natural numbers -/

theorem digitsValue_concat (start : Nat) (ds : List Char) {d : Nat} (hd : d < 10) :
    digitsValue start (ds ++ [digitChar d]) = digitsValue start ds * 10 + d := by
  have hchar : ∀ d < 10, (digitChar d).toNat - 48 = d := by decide
  rw [digitsValue, List.foldl_append, List.foldl_cons, List.foldl_nil, hchar d hd]
  rfl

theorem digitsValue_digits (n : Nat) : digitsValue 0 (digits n) = n := by
  induction n using digits.induct with
  | case1 n hn =>
    rw [digits_of_lt hn]
    simpa [digitsValue] using digitsValue_concat 0 [] hn
  | case2 n hn ih =>
    rw [digits_of_not_lt hn, digitsValue_concat _ _ (Nat.mod_lt n (by decide)), ih]
    omega

theorem ofLiteral_text (n : Nat) : Numeral.ofLiteral (Decimal.text n) = ⟨false, n, 0, true⟩ := by
  have hdigits : ∀ c ∈ digits n, c.isDigit = true := fun _ ↦ isDigit_of_mem_digits
  have hhead : ((digits n).head? == some '-') = false := by
    obtain ⟨c, rest, hcons⟩ := List.exists_cons_of_ne_nil (digits_ne_nil n)
    have hc : c.isDigit = true := hdigits c (by rw [hcons]; exact List.mem_cons_self)
    rw [hcons, List.head?_cons, beq_eq_false_iff_ne]
    rintro ⟨⟩
    cases hc
  have hrun : (digits n ++ []).takeWhile Char.isDigit = digits n :=
    takeWhile_isDigit hdigits fun _ h ↦ nomatch h
  rw [List.append_nil] at hrun
  rw [Numeral.ofLiteral, Decimal.text, String.toList_ofList]
  simp [hhead, hrun, digitsValue_digits]
  rfl

theorem natBelow?_ofNat {bound n : Nat} (h : n < bound) :
    (ofNat n).natBelow? bound = some n := by
  rw [Value.natBelow?, ofNat, Value.int?, ofLiteral_text]
  simp [Numeral.toInt?, h]

theorem nat32?_ofNat {n : Nat} (h : n < 0x100000000) : (ofNat n).nat32? = some n :=
  natBelow?_ofNat h

theorem nat64?_ofNat {n : Nat} (h : n < 0x10000000000000000) : (ofNat n).nat64? = some n :=
  natBelow?_ofNat h

theorem readable_ofNat (depth n : Nat) : Readable depth (ofNat n) := .number (isLiteral_text n)

/-! ## Numbers with a fraction -/

theorem readable_ofSingle (depth : Nat) (x : Float32) : Readable depth (ofSingle x) := by
  rw [ofSingle]
  split
  · exact .number (isLiteral_finiteText _ _ _ _ _)
  · exact .null

theorem ofSingle_of_not_isFinite {x : Float32} (h : x.isFinite = false) : ofSingle x = .null := by
  rcases FloatValue.ofSingle_of_not_isFinite h with hnan | ⟨negative, hinfinite⟩
  · rw [ofSingle, hnan]
  · rw [ofSingle, hinfinite]

end Marginalia.Json
