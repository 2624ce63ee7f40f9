/-!
# UTF-8

Encoding is core's; decoding is done here on a list of bytes by a machine that reads one byte at a
time, because broken text has to be repaired as well as refused. A sequence that is cut short or
continued by a wrong byte becomes one replacement character, and the wrong byte starts afresh.
-/

namespace Marginalia.Text.Utf8

def encode (s : String) : List UInt8 :=
  s.toUTF8.toList

/-- A sequence under way: the bytes still owed, the range of the next one, and the code point so
far. -/
structure Pending where
  owed : Nat
  lower : Nat
  upper : Nat
  code : Nat

/-- What a byte that starts a character says: a whole character, or what must follow it. -/
inductive Start where
  | whole (c : Char)
  | more (pending : Pending)
  | refused

/-- The reading of a byte between characters. -/
def start (b : Nat) : Start :=
  if b < 0x80 then .whole (Char.ofNat b)
  else if 0xC2 ≤ b ∧ b ≤ 0xDF then .more ⟨1, 0x80, 0xBF, b - 0xC0⟩
  else if b = 0xE0 then .more ⟨2, 0xA0, 0xBF, 0⟩
  else if b = 0xED then .more ⟨2, 0x80, 0x9F, 0xD⟩
  else if 0xE1 ≤ b ∧ b ≤ 0xEF then .more ⟨2, 0x80, 0xBF, b - 0xE0⟩
  else if b = 0xF0 then .more ⟨3, 0x90, 0xBF, 0⟩
  else if b = 0xF4 then .more ⟨3, 0x80, 0x8F, 4⟩
  else if 0xF1 ≤ b ∧ b ≤ 0xF3 then .more ⟨3, 0x80, 0xBF, b - 0xF0⟩
  else .refused

def replacement : Char := Char.ofNat 0xFFFD

mutual

/-- The characters of the bytes from where one may start; `none` stands for broken bytes. -/
def scan : List UInt8 → List (Option Char)
  | [] => []
  | b :: bs =>
    match start b.toNat with
    | .whole c => some c :: scan bs
    | .more pending => scanPending pending bs
    | .refused => none :: scan bs

/-- The characters of the bytes, read within a sequence. -/
def scanPending (pending : Pending) : List UInt8 → List (Option Char)
  | [] => [none]
  | b :: bs =>
    let n := b.toNat
    if pending.lower ≤ n ∧ n ≤ pending.upper then
      let code := pending.code * 64 + (n - 0x80)
      if pending.owed ≤ 1 then some (Char.ofNat code) :: scan bs
      else scanPending ⟨pending.owed - 1, 0x80, 0xBF, code⟩ bs
    else
      match start n with
      | .whole c => none :: some c :: scan bs
      | .more next => none :: scanPending next bs
      | .refused => none :: none :: scan bs

end

/-- The text of the bytes, or `none` when they are not UTF-8. -/
def decode? (bytes : List UInt8) : Option String :=
  ((scan bytes).mapM id).map String.ofList

/-- The text of the bytes with a replacement character for every broken sequence. -/
def decodeRepaired (bytes : List UInt8) : String :=
  String.ofList ((scan bytes).map fun c ↦ c.getD replacement)

end Marginalia.Text.Utf8
