import Marginalia.Pdf.Object

/-!
# Filters of streams

A stream may be kept in fewer bytes than it stands for. The blocks of a deflated stream are made of
literal bytes and of copies of what has come before; canonical codes stand for both. A predictor may
have replaced the rows of a stream by differences to their neighbours.

A stream that is broken stands for what can be read of it.
-/

namespace Marginalia.Pdf.Filter

/-! ## Bits and codes -/

/-- The bits that are left, of each byte the least significant one first. -/
abbrev Bits := List Bool

def bitsOf (bytes : Bytes) : Bits :=
  bytes.flatMap fun b ↦ (List.range 8).map fun i ↦ b.toNat.testBit i

/-- A number of some bits, the least significant one first. -/
def number? : Nat → Bits → Option (Nat × Bits)
  | 0, s => some (0, s)
  | _ + 1, [] => none
  | n + 1, b :: s => (number? n s).map fun (k, rest) ↦ (2 * k + b.toNat, rest)

/-- A canonical code: how many symbols there are for each length from one on, and the symbols in the
order of their codes. -/
structure Code where
  counts : List Nat
  symbols : Array Nat

namespace Code

/-- The code with some lengths; a symbol of length zero has no code. -/
def ofLengths (lengths : List Nat) : Code where
  counts := (List.range' 1 15).map fun n ↦ lengths.count n
  symbols := ((List.range' 1 15).flatMap fun n ↦
    (lengths.zipIdx.filter fun (length, _) ↦ length == n).map Prod.snd).toArray

/-- The symbol whose code comes next; the codes of a length follow one another from `first` on. -/
def symbolFrom? (symbols : Array Nat) : (counts : List Nat) → (code first index : Nat) → Bits →
    Option (Nat × Bits)
  | [], _, _, _, _ => none
  | _ :: _, _, _, _, [] => none
  | count :: counts, code, first, index, b :: s =>
    let code := 2 * code + b.toNat
    if code < first + count then symbols[index + (code - first)]?.map fun symbol ↦ (symbol, s)
    else symbolFrom? symbols counts code (2 * (first + count)) (index + count) s

def symbol? (c : Code) (s : Bits) : Option (Nat × Bits) :=
  symbolFrom? c.symbols c.counts 0 0 0 s

end Code

/-! ## Blocks -/

/-- The shortest copy of each symbol from 257 on, and how many bits tell how much longer it is. -/
def copyLengths : List (Nat × Nat) :=
  [(3, 0), (4, 0), (5, 0), (6, 0), (7, 0), (8, 0), (9, 0), (10, 0), (11, 1), (13, 1), (15, 1),
    (17, 1), (19, 2), (23, 2), (27, 2), (31, 2), (35, 3), (43, 3), (51, 3), (59, 3), (67, 4),
    (83, 4), (99, 4), (115, 4), (131, 5), (163, 5), (195, 5), (227, 5), (258, 0)]

/-- The least distance of each symbol, and how many bits tell how much greater it is. -/
def copyDistances : List (Nat × Nat) :=
  [(1, 0), (2, 0), (3, 0), (4, 0), (5, 1), (7, 1), (9, 2), (13, 2), (17, 3), (25, 3), (33, 4),
    (49, 4), (65, 5), (97, 5), (129, 6), (193, 6), (257, 7), (385, 7), (513, 8), (769, 8),
    (1025, 9), (1537, 9), (2049, 10), (3073, 10), (4097, 11), (6145, 11), (8193, 12), (12289, 12),
    (16385, 13), (24577, 13)]

/-- A number that a symbol and some more bits stand for. -/
def extended? (table : List (Nat × Nat)) (symbol : Nat) (s : Bits) : Option (Nat × Bits) := do
  let (base, more) ← table[symbol]?
  let (n, s) ← number? more s
  return (base + n, s)

/-- Bytes are repeated from a distance back. -/
def copy (distance : Nat) : Nat → Array UInt8 → Array UInt8
  | 0, out => out
  | n + 1, out => copy distance n (out.push (out.getD (out.size - distance) 0))

/-- What comes after some output: the bits after a block, or the end of what can be read. -/
abbrev Progress := Array UInt8 × Option Bits

def symbols (literals distances : Code) : Nat → Array UInt8 → Bits → Progress
  | 0, out, _ => (out, none)
  | fuel + 1, out, s =>
    match literals.symbol? s with
    | none => (out, none)
    | some (symbol, s) =>
      if symbol < 256 then symbols literals distances fuel (out.push (UInt8.ofNat symbol)) s
      else if symbol = 256 then (out, some s)
      else
        let copied := do
          let (length, s) ← extended? copyLengths (symbol - 257) s
          let (symbol, s) ← distances.symbol? s
          let (distance, s) ← extended? copyDistances symbol s
          if distance ≤ out.size then some (length, distance, s) else none
        match copied with
        | none => (out, none)
        | some (length, distance, s) =>
          symbols literals distances fuel (copy distance length out) s

/-- A block of bytes as they are, from the next whole byte on. -/
def storedBlock (out : Array UInt8) (s : Bits) : Progress :=
  let header := do
    let (size, s) ← number? 16 (s.drop (s.length % 8))
    let (complement, s) ← number? 16 s
    if size + complement = 0xFFFF then some (size, s) else none
  match header with
  | none => (out, none)
  | some (size, s) => go size out s
where
  /-- A number of bytes. -/
  go : Nat → Array UInt8 → Bits → Progress
    | 0, out, s => (out, some s)
    | n + 1, out, s =>
      match number? 8 s with
      | none => (out, none)
      | some (b, s) => go n (out.push (UInt8.ofNat b)) s

/-- The code of a block that does not bring its own. -/
def fixedLengths : List Nat :=
  List.replicate 144 8 ++ List.replicate 112 9 ++ List.replicate 24 7 ++ List.replicate 8 8

/-- Lengths that are coded themselves; some symbols repeat the last length, or zero. -/
def lengths? (code : Code) : (fuel count : Nat) → (known : List Nat) → Bits →
    Option (List Nat × Bits)
  | 0, _, _, _ => none
  | fuel + 1, count, known, s =>
    if count ≤ known.length then
      if known.length = count then some (known, s) else none
    else do
      let (symbol, s) ← code.symbol? s
      match symbol with
      | 16 =>
        let last ← known.getLast?
        let (n, s) ← number? 2 s
        lengths? code fuel count (known ++ List.replicate (3 + n) last) s
      | 17 =>
        let (n, s) ← number? 3 s
        lengths? code fuel count (known ++ List.replicate (3 + n) 0) s
      | 18 =>
        let (n, s) ← number? 7 s
        lengths? code fuel count (known ++ List.replicate (11 + n) 0) s
      | length => lengths? code fuel count (known ++ [length]) s

/-- The order in which the lengths of the code of lengths are given. -/
def lengthOrder : List Nat := [16, 17, 18, 0, 8, 7, 9, 6, 10, 5, 11, 4, 12, 3, 13, 2, 14, 1, 15]

def triples? : Nat → Bits → Option (List Nat × Bits)
  | 0, s => some ([], s)
  | n + 1, s => do
    let (first, s) ← number? 3 s
    let (rest, s) ← triples? n s
    return (first :: rest, s)

/-- The two codes that a block brings with it. -/
def codes? (s : Bits) : Option (Code × Code × Bits) := do
  let (literals, s) ← number? 5 s
  let (distances, s) ← number? 5 s
  let (count, s) ← number? 4 s
  let (given, s) ← triples? (count + 4) s
  let code := Code.ofLengths <| (List.range 19).map fun symbol ↦
    (((lengthOrder.zip given).find? fun (other, _) ↦ other == symbol).map Prod.snd).getD 0
  let total := literals + 257 + (distances + 1)
  let (lengths, s) ← lengths? code (total + 1) total [] s
  return (.ofLengths (lengths.take (literals + 257)), .ofLengths (lengths.drop (literals + 257)), s)

/-- The blocks up to the last one. -/
def blocks : Nat → Array UInt8 → Bits → Array UInt8
  | 0, out, _ => out
  | fuel + 1, out, s =>
    let head := do
      let (last, s) ← number? 1 s
      let (kind, s) ← number? 2 s
      return (last, kind, s)
    match head with
    | none => out
    | some (last, kind, s) =>
      let (out, rest) := match kind with
        | 0 => storedBlock out s
        | 1 =>
          symbols (.ofLengths fixedLengths) (.ofLengths (List.replicate 30 5)) (s.length + 1) out s
        | 2 =>
          match codes? s with
          | none => (out, none)
          | some (literals, distances, s) => symbols literals distances (s.length + 1) out s
        | _ => (out, none)
      match rest with
      | none => out
      | some s => if last = 1 then out else blocks fuel out s

/-- What a deflated stream stands for; two bytes come before it. -/
def inflate : Bytes → Bytes
  | method :: flags :: rest =>
    if method.toNat % 16 = 8 ∧ (method.toNat * 256 + flags.toNat) % 31 = 0 ∧
        flags.toNat.testBit 5 = false then
      let s := bitsOf rest
      (blocks (s.length + 1) #[] s).toList
    else []
  | _ => []

/-! ## Predictors -/

/-- Of the byte on the left, the one above and the one above that on the left: the nearest to what
they add up to. -/
def paeth (left above corner : UInt8) : UInt8 :=
  let estimate : Int := (left.toNat : Int) + above.toNat - corner.toNat
  let distance (b : UInt8) : Nat := (estimate - b.toNat).natAbs
  if distance left ≤ distance above ∧ distance left ≤ distance corner then left
  else if distance above ≤ distance corner then above
  else corner

/-- What a byte of a row is added to. -/
def predicted? (filter : UInt8) (left above corner : UInt8) : Option UInt8 :=
  match filter.toNat with
  | 0 => some 0
  | 1 => some left
  | 2 => some above
  | 3 => some (UInt8.ofNat ((left.toNat + above.toNat) / 2))
  | 4 => some (paeth left above corner)
  | _ => none

/-- A row of bytes by the row above it; on the left of the first pixel there is nothing. -/
def row? (filter : UInt8) (pixel : Nat) (above : Array UInt8) (row : Bytes) :
    Option (Array UInt8) :=
  row.foldlM (fun out b ↦ do
    let i := out.size
    let left := if i < pixel then 0 else out.getD (i - pixel) 0
    let corner := if i < pixel then 0 else above.getD (i - pixel) 0
    return out.push (b + (← predicted? filter left (above.getD i 0) corner))) #[]

/-- The rows of a stream, each after a byte that tells how it was predicted. -/
def rows? (pixel width : Nat) : Nat → Array UInt8 → Bytes → Option Bytes
  | 0, _, _ => some []
  | _ + 1, _, [] => some []
  | fuel + 1, above, filter :: s => do
    let row ← row? filter pixel above (s.take width)
    return row.toList ++ (← rows? pixel width fuel row (s.drop width))

/-- Undo the prediction that the parameters of a filter speak of. -/
def unpredict? (parameters : Option Dictionary) (bytes : Bytes) : Option Bytes :=
  let parameter (key : String) (otherwise : Int) : Int :=
    ((parameters.bind fun d ↦ d.get? key).bind Object.integer?).getD otherwise
  let predictor := parameter "Predictor" 1
  if 10 ≤ predictor ∧ predictor ≤ 15 then
    let columns := (max 1 (parameter "Columns" 1)).toNat
    let colors := (min 4 (max 1 (parameter "Colors" 1))).toNat
    let bits := (max 8 (parameter "BitsPerComponent" 8)).toNat
    let pixel := colors * bits / 8
    rows? pixel (pixel * columns) (bytes.length + 1) #[] bytes
  else some bytes

/-! ## Streams -/

def names? (entries : Dictionary) : Option (List String) :=
  match entries.get? "Filter" with
  | some (.name name) => some [name]
  | some (.array items) => items.mapM Object.name?
  | _ => none

/-- What a stream with filters stands for. Of the filters only deflation is known. -/
def decode? (entries : Dictionary) (content : Bytes) : Option Bytes := do
  let names ← names? entries
  if names.isEmpty ∨ (entries.get? "Subtype").bind Object.name? = some "Image" then none
  let parameters := (entries.get? "DecodeParms").bind Object.dictionary?
  names.foldlM (fun bytes name ↦
    if name == "FlateDecode" then unpredict? parameters (inflate bytes) else none) content

/-- A stream whose content is replaced by what it stands for. -/
def expand? (entries : Dictionary) (content : Bytes) : Option (Dictionary × Bytes) := do
  let content ← decode? entries content
  let entries := (entries.erase "DecodeParms").erase "Filter"
  return (entries.set "Length" (.integer content.length), content)

end Marginalia.Pdf.Filter
