import Marginalia.Proofs.Json.Literals

/-!
# JSON reads back

The text of a value, indented or compact, is read as that value, if its numbers are number literals
and it is nested less deep than the reader allows. The reader is given fuel for as many steps as
there are characters, so what is shown of each part is that its text is shorter than the fuel.
-/

namespace Marginalia.Json

/-- The values that are nested at most to a depth and whose numbers are number literals. -/
inductive Readable : Nat → Value → Prop
  | null {depth : Nat} : Readable depth .null
  | bool {depth : Nat} (value : Bool) : Readable depth (.bool value)
  | number {depth : Nat} {literal : String} (h : IsLiteral literal) :
    Readable depth (.number literal)
  | string {depth : Nat} (text : String) : Readable depth (.string text)
  | array {depth : Nat} {items : List Value} (h : ∀ item ∈ items, Readable depth item) :
    Readable (depth + 1) (.array items)
  | object {depth : Nat} {members : List (String × Value)}
    (h : ∀ member ∈ members, Readable depth member.2) : Readable (depth + 1) (.object members)

namespace Parser

/-! ## One step of the readers -/

theorem value?_succ (fuel depth : Nat) (s : List Char) :
    value? (fuel + 1) depth s =
      match skip s with
      | '"' :: rest => (string? rest).map fun (text, rest) ↦ (.string text, rest)
      | 'n' :: 'u' :: 'l' :: 'l' :: rest => some (.null, rest)
      | 't' :: 'r' :: 'u' :: 'e' :: rest => some (.bool true, rest)
      | 'f' :: 'a' :: 'l' :: 's' :: 'e' :: rest => some (.bool false, rest)
      | '[' :: rest =>
        if depth ≤ 1 then none
        else
          match skip rest with
          | ']' :: rest => some (.array [], rest)
          | rest => (items? fuel (depth - 1) rest).map fun (items, rest) ↦ (.array items, rest)
      | '\x7b' :: rest =>
        if depth ≤ 1 then none
        else
          match skip rest with
          | '\x7d' :: rest => some (.object [], rest)
          | rest =>
            (members? fuel (depth - 1) rest).map fun (members, rest) ↦ (.object members, rest)
      | s => number? s := rfl

theorem items?_succ (fuel depth : Nat) (s : List Char) :
    items? (fuel + 1) depth s = (do
      let (item, rest) ← value? fuel depth s
      match skip rest with
      | ',' :: rest =>
        let (items, rest) ← items? fuel depth rest
        return (item :: items, rest)
      | ']' :: rest => return ([item], rest)
      | _ => none) := rfl

theorem members?_succ (fuel depth : Nat) (s : List Char) :
    members? (fuel + 1) depth s =
      match skip s with
      | '"' :: rest => do
        let (key, rest) ← string? rest
        match skip rest with
        | ':' :: rest =>
          let (value, rest) ← value? fuel depth rest
          match skip rest with
          | ',' :: rest =>
            let (members, rest) ← members? fuel depth rest
            return ((key, value) :: members, rest)
          | '\x7d' :: rest => return ([(key, value)], rest)
          | _ => none
        | _ => none
      | _ => none := rfl

/-! ## Texts -/

theorem codeUnit?_hexDigits {n : Nat} (h : n < 0x10000) (rest : List Char) :
    codeUnit? (Decimal.hexDigits 4 n ++ rest) = some (n, rest) := by
  have hread : ∀ d, Decimal.hexValue? (Decimal.hexChar (d % 16)) = some (d % 16) := fun d ↦
    (Decimal.hexValue?_hexChar (Nat.mod_lt d (by decide))).1
  simp only [Decimal.hexDigits, List.nil_append, List.cons_append, codeUnit?, hread, bind,
    Option.bind_some, pure]
  exact congrArg (fun n ↦ some (n, rest)) (by omega)

/-- A character is read from what is written for it, as one step of the reader. -/
theorem stringBody?_escapedChar (fuel : Nat) (acc : List Char) (c : Char) (rest : List Char) :
    stringBody? (fuel + 1) acc (escapedChar c ++ rest) = stringBody? fuel (c :: acc) rest := by
  have hback : Char.ofNat c.toNat = c := Char.ofNat_toNat c
  rw [escapedChar]
  by_cases hquote : c = '"'
  · subst hquote
    rfl
  by_cases hbackslash : c = '\\'
  · subst hbackslash
    rfl
  by_cases hn : c = '\n'
  · subst hn
    rfl
  by_cases hr : c = '\r'
  · subst hr
    rfl
  by_cases ht : c = '\t'
  · subst ht
    rfl
  rw [if_neg hquote, if_neg hbackslash, if_neg hn, if_neg hr, if_neg ht]
  by_cases hb : c.toNat = 8
  · rw [if_pos hb, ← hback, hb]
    rfl
  by_cases hf : c.toNat = 12
  · rw [if_neg hb, if_pos hf, ← hback, hf]
    rfl
  rw [if_neg hb, if_neg hf]
  by_cases hcontrol : c.toNat < 0x20
  · rw [if_pos hcontrol]
    have hescape : escape? ('u' :: (Decimal.hexDigits 4 c.toNat ++ rest)) = some (c, rest) := by
      rw [escape?, unicodeEscape?, codeUnit?_hexDigits (by omega)]
      simp only [bind, Option.bind_some]
      rw [if_neg (by omega), if_neg (by omega), hback]
      rfl
    rw [List.cons_append, List.cons_append, stringBody?, if_neg (by decide), if_pos rfl, hescape]
    rfl
  · rw [if_neg hcontrol, List.singleton_append, stringBody?, if_neg hquote, if_neg hbackslash,
      if_neg hcontrol]

theorem stringBody?_flatMap (s acc rest : List Char) (fuel : Nat) (h : s.length < fuel) :
    stringBody? fuel acc (s.flatMap escapedChar ++ '"' :: rest) =
      some (String.ofList (acc.reverse ++ s), rest) := by
  induction s generalizing acc fuel with
  | nil =>
    obtain ⟨fuel, rfl⟩ := Nat.exists_eq_succ_of_ne_zero (Nat.ne_of_gt h)
    rw [List.flatMap_nil, List.nil_append, stringBody?, if_pos rfl, List.append_nil]
  | cons c tail ih =>
    obtain ⟨fuel, rfl⟩ := Nat.exists_eq_succ_of_ne_zero (Nat.ne_of_gt (Nat.zero_lt_of_lt h))
    rw [List.flatMap_cons, List.append_assoc, stringBody?_escapedChar,
      ih _ _ (Nat.lt_of_succ_lt_succ h), List.reverse_cons, List.append_assoc,
      List.singleton_append]

theorem length_le_flatMap_escapedChar (s : List Char) :
    s.length ≤ (s.flatMap escapedChar).length := by
  induction s with
  | nil => exact Nat.le_refl 0
  | cons c rest ih =>
    have hone : 1 ≤ (escapedChar c).length := by
      unfold escapedChar
      repeat' split
      all_goals simp
    simp only [List.flatMap_cons, List.length_append, List.length_cons]
    omega

theorem toList_stringText (s : String) :
    (stringText s).toList = '"' :: (s.toList.flatMap escapedChar ++ ['"']) := by
  rw [stringText, String.toList_ofList, List.cons_append]

/-- A text is read from its escaped form, after the opening quotation mark. -/
theorem string?_append (s : String) (rest : List Char) :
    string? (s.toList.flatMap escapedChar ++ '"' :: rest) = some (s, rest) := by
  have hlength := length_le_flatMap_escapedChar s.toList
  rw [string?, stringBody?_flatMap _ _ _ _ (by simp only [List.length_append]; omega)]
  rw [List.reverse_nil, List.nil_append, String.ofList_toList]

/-! ## Blanks -/

/-- Blanks only. -/
def AreSpaces (cs : List Char) : Prop := ∀ c ∈ cs, isSpace c = true

theorem skip_append {spaces : List Char} (h : AreSpaces spaces) (rest : List Char) :
    skip (spaces ++ rest) = skip rest :=
  List.dropWhile_append_of_pos h

theorem skip_cons {c : Char} (h : isSpace c = false) (rest : List Char) :
    skip (c :: rest) = c :: rest := by
  rw [skip, List.dropWhile_cons_of_neg (by rw [h]; exact Bool.false_ne_true)]

/-- A value is read after blanks as it is read without them. -/
theorem value?_skip {spaces : List Char} (h : AreSpaces spaces) (fuel depth : Nat)
    (rest : List Char) : value? fuel depth (spaces ++ rest) = value? fuel depth rest := by
  cases fuel with
  | zero => rfl
  | succ fuel => rw [value?_succ, value?_succ, skip_append h]

theorem skip_skip (s : List Char) : skip (skip s) = skip s := by
  induction s with
  | nil => rfl
  | cons c rest ih =>
    by_cases hspace : isSpace c = true
    · have hskip : skip (c :: rest) = skip rest := List.dropWhile_cons_of_pos hspace
      rw [hskip, ih]
    · rw [skip_cons (by simpa using hspace), skip_cons (by simpa using hspace)]

theorem items?_skip (fuel depth : Nat) (s : List Char) :
    items? fuel depth (skip s) = items? fuel depth s := by
  cases fuel with
  | zero => rfl
  | succ fuel =>
    have hvalue : value? fuel depth (skip s) = value? fuel depth s := by
      cases fuel with
      | zero => rfl
      | succ fuel => rw [value?_succ, value?_succ, skip_skip]
    rw [items?_succ, items?_succ, hvalue]

theorem members?_skip (fuel depth : Nat) (s : List Char) :
    members? fuel depth (skip s) = members? fuel depth s := by
  cases fuel with
  | zero => rfl
  | succ fuel => rw [members?_succ, members?_succ, skip_skip]

theorem endsNumber_cons {c : Char} (rest : List Char)
    (hc : c.isDigit = false ∧ c ≠ '.' ∧ c ≠ 'e' ∧ c ≠ 'E') : EndsNumber (c :: rest) := by
  intro d hd
  obtain rfl := Option.some.inj hd
  exact hc

/-- Blanks do not carry on a number. -/
theorem endsNumber_append {spaces : List Char} (h : AreSpaces spaces) {c : Char} (rest : List Char)
    (hc : c.isDigit = false ∧ c ≠ '.' ∧ c ≠ 'e' ∧ c ≠ 'E') :
    EndsNumber (spaces ++ c :: rest) := by
  cases spaces with
  | nil => exact endsNumber_cons rest hc
  | cons space spaces =>
    refine endsNumber_cons _ ?_
    have hspace := h space List.mem_cons_self
    simp only [isSpace, Bool.or_eq_true, beq_iff_eq] at hspace
    rcases hspace with ((rfl | rfl) | rfl) | rfl <;> decide

/-! ## Values without parts -/

theorem value?_null (fuel depth : Nat) (rest : List Char) :
    value? (fuel + 1) depth ("null".toList ++ rest) = some (.null, rest) := by
  rw [value?_succ]
  rfl

theorem value?_bool (fuel depth : Nat) (value : Bool) (rest : List Char) :
    value? (fuel + 1) depth ((if value then "true" else "false").toList ++ rest) =
      some (.bool value, rest) := by
  rw [value?_succ]
  cases value <;> rfl

theorem value?_string (fuel depth : Nat) (s : String) (rest : List Char) :
    value? (fuel + 1) depth ((stringText s).toList ++ rest) = some (.string s, rest) := by
  rw [toList_stringText, List.cons_append, List.append_assoc, List.singleton_append, value?_succ,
    skip_cons rfl]
  exact congrArg (Option.map fun (text, rest) ↦ (Value.string text, rest)) (string?_append s rest)

/-- A literal begins with a sign or a digit. -/
theorem IsLiteral.head {literal : String} (h : IsLiteral literal) :
    ∃ c rest, literal.toList = c :: rest ∧ (c = '-' ∨ c.isDigit = true) := by
  obtain ⟨magnitude, hmagnitude, hliteral⟩ := h
  obtain ⟨c, tail, rfl, hdigit⟩ := IsMagnitude.head hmagnitude
  rcases hliteral with hplain | hsigned
  · exact ⟨c, tail, hplain, Or.inr hdigit⟩
  · exact ⟨'-', c :: tail, hsigned, Or.inl rfl⟩

theorem value?_number (fuel depth : Nat) {literal : String} (h : IsLiteral literal)
    {rest : List Char} (hrest : EndsNumber rest) :
    value? (fuel + 1) depth (literal.toList ++ rest) = some (.number literal, rest) := by
  have hread := number?_append h hrest
  obtain ⟨c, tail, hcons, hc⟩ := IsLiteral.head h
  have hspace : isSpace c = false := by
    cases hspace : isSpace c with
    | false => rfl
    | true =>
      simp only [isSpace, Bool.or_eq_true, beq_iff_eq] at hspace
      rcases hspace with ((rfl | rfl) | rfl) | rfl <;> revert hc <;> decide
  rw [hcons, List.cons_append] at hread ⊢
  rw [value?_succ, skip_cons hspace]
  -- No other kind of value begins with a sign or a digit.
  split
  all_goals first
    | exact hread
    | next heq =>
      obtain rfl := List.head_eq_of_cons_eq heq
      exact absurd hc (by decide)

/-! ## Values with parts -/

/-- Some text is read as a value at any depth that leaves room for it. -/
def ReadsAs (depth : Nat) (text : String) (v : Value) : Prop :=
  ∀ (fuel : Nat) (rest : List Char), text.toList.length < fuel → EndsNumber rest →
    value? fuel depth (text.toList ++ rest) = some (v, rest)

/-- Some text is read as a member of an object: blanks, a key, a colon, and its value. -/
def ReadsAsMember (depth : Nat) (text : String) (member : String × Value) : Prop :=
  ∃ blanks valueText : String, AreSpaces blanks.toList ∧
    text = blanks ++ stringText member.1 ++ ":" ++ valueText ∧ ReadsAs depth valueText member.2

/-- Reading a value takes fuel, of which there is some. -/
theorem readsAs_of_succ {depth : Nat} {text : String} {v : Value}
    (h : ∀ (fuel : Nat) (rest : List Char), text.toList.length ≤ fuel → EndsNumber rest →
      value? (fuel + 1) depth (text.toList ++ rest) = some (v, rest)) : ReadsAs depth text v := by
  intro fuel rest hfuel hrest
  obtain ⟨fuel, rfl⟩ := Nat.exists_eq_succ_of_ne_zero (Nat.ne_of_gt (Nat.zero_lt_of_lt hfuel))
  exact h fuel rest (Nat.le_of_lt_succ hfuel) hrest

theorem ReadsAs.after_blanks {depth : Nat} {text : String} {v : Value} (h : ReadsAs depth text v)
    {blanks : String} (hblanks : AreSpaces blanks.toList) : ReadsAs depth (blanks ++ text) v := by
  intro fuel rest hfuel hrest
  rw [String.toList_append, List.length_append] at hfuel
  rw [String.toList_append, List.append_assoc, value?_skip hblanks]
  exact h fuel rest (by omega) hrest

theorem areSpaces_append {spaces more : String} (h : AreSpaces spaces.toList)
    (hmore : AreSpaces more.toList) : AreSpaces (spaces ++ more).toList := by
  intro c hc
  rw [String.toList_append, List.mem_append] at hc
  exact hc.elim (h c) (hmore c)

theorem areSpaces_of_replicate {spaces : String} (count : Nat) {space : Char}
    (h : spaces.toList = List.replicate count space) (hspace : isSpace space = true) :
    AreSpaces spaces.toList := by
  intro c hc
  rw [h] at hc
  rw [List.eq_of_mem_replicate hc, hspace]

theorem areSpaces_indent : AreSpaces "  ".toList := areSpaces_of_replicate 2 rfl rfl

theorem areSpaces_newline : AreSpaces "\n".toList := areSpaces_of_replicate 1 rfl rfl

theorem areSpaces_blank : AreSpaces " ".toList := areSpaces_of_replicate 1 rfl rfl

theorem areSpaces_empty : AreSpaces "".toList := fun _ hc ↦ nomatch hc

theorem joined_nil : joined "," [] = "" := rfl

theorem toList_joined_singleton (part : String) :
    (joined "," [part]).toList = part.toList := by
  rw [joined, String.intercalate_singleton]

theorem toList_joined_cons (part next : String) (parts : List String) :
    (joined "," (part :: next :: parts)).toList =
      part.toList ++ ',' :: (joined "," (next :: parts)).toList := by
  rw [joined, String.intercalate_cons_cons, String.toList_append, String.toList_append,
    List.append_assoc]
  rfl

theorem items?_text {depth : Nat} {text : String} {item : Value} (h : ReadsAs depth text item)
    {fuel : Nat} (rest : List Char) (hfuel : text.toList.length < fuel)
    (hrest : EndsNumber rest) :
    items? (fuel + 1) depth (text.toList ++ rest) =
      match skip rest with
      | ',' :: rest => do
        let (items, rest) ← items? fuel depth rest
        return (item :: items, rest)
      | ']' :: rest => some ([item], rest)
      | _ => none := by
  rw [items?_succ, h fuel rest hfuel hrest]
  rfl

/-- The items of an array are read up to its closing bracket. -/
theorem items?_joined {depth : Nat} {text : Value → String} {closing : List Char}
    (hclosing : AreSpaces closing) (rest : List Char) (item : Value) (items : List Value)
    (h : ∀ other ∈ item :: items, ReadsAs depth (text other) other) (fuel : Nat)
    (hfuel : (joined "," ((item :: items).map text)).toList.length < fuel) :
    items? (fuel + 1) depth ((joined "," ((item :: items).map text)).toList ++
      (closing ++ ']' :: rest)) = some (item :: items, rest) := by
  induction items generalizing item fuel with
  | nil =>
    rw [List.map_singleton, toList_joined_singleton] at hfuel ⊢
    rw [items?_text (h item List.mem_cons_self) _ hfuel
      (endsNumber_append hclosing rest (by decide)), skip_append hclosing, skip_cons rfl]
    rfl
  | cons next items ih =>
    rw [List.map_cons, List.map_cons, toList_joined_cons, ← List.map_cons] at hfuel ⊢
    rw [List.length_append, List.length_cons] at hfuel
    obtain ⟨fuel, rfl⟩ : ∃ less, fuel = less + 1 := ⟨fuel - 1, by omega⟩
    have hrest := ih next (fun other hother ↦ h other (List.mem_cons_of_mem _ hother)) fuel
      (by omega)
    rw [List.append_assoc, List.cons_append, items?_text (h item List.mem_cons_self) _ (by omega)
      (endsNumber_cons _ (by decide)), skip_cons rfl]
    exact congrArg (· >>= fun (items, rest) ↦ some (item :: items, rest)) hrest

theorem members?_text {depth : Nat} {text : String} {member : String × Value}
    (h : ReadsAsMember depth text member) {fuel : Nat} (rest : List Char)
    (hfuel : text.toList.length < fuel) (hrest : EndsNumber rest) :
    members? (fuel + 1) depth (text.toList ++ rest) =
      match skip rest with
      | ',' :: rest => do
        let (members, rest) ← members? fuel depth rest
        return (member :: members, rest)
      | '\x7d' :: rest => some ([member], rest)
      | _ => none := by
  obtain ⟨key, value⟩ := member
  obtain ⟨blanks, valueText, hblanks, rfl, hvalue⟩ := h
  have hcolon : ":".toList = [':'] := rfl
  simp only [String.toList_append, toList_stringText, hcolon, List.append_assoc, List.cons_append,
    List.nil_append, List.length_append, List.length_cons] at hfuel ⊢
  rw [members?_succ, skip_append hblanks, skip_cons rfl]
  simp only [string?_append, bind, Option.bind_some, skip_cons (c := ':') rfl]
  rw [hvalue fuel rest (by omega) hrest]
  rfl

/-- The members of an object are read up to its closing brace. -/
theorem members?_joined {depth : Nat} {text : String × Value → String} {closing : List Char}
    (hclosing : AreSpaces closing) (rest : List Char) (member : String × Value)
    (members : List (String × Value))
    (h : ∀ other ∈ member :: members, ReadsAsMember depth (text other) other) (fuel : Nat)
    (hfuel : (joined "," ((member :: members).map text)).toList.length < fuel) :
    members? (fuel + 1) depth ((joined "," ((member :: members).map text)).toList ++
      (closing ++ '\x7d' :: rest)) = some (member :: members, rest) := by
  induction members generalizing member fuel with
  | nil =>
    rw [List.map_singleton, toList_joined_singleton] at hfuel ⊢
    rw [members?_text (h member List.mem_cons_self) _ hfuel
      (endsNumber_append hclosing rest (by decide)), skip_append hclosing, skip_cons rfl]
    rfl
  | cons next members ih =>
    rw [List.map_cons, List.map_cons, toList_joined_cons, ← List.map_cons] at hfuel ⊢
    rw [List.length_append, List.length_cons] at hfuel
    obtain ⟨fuel, rfl⟩ : ∃ less, fuel = less + 1 := ⟨fuel - 1, by omega⟩
    have hrest := ih next (fun other hother ↦ h other (List.mem_cons_of_mem _ hother)) fuel
      (by omega)
    rw [List.append_assoc, List.cons_append, members?_text (h member List.mem_cons_self) _
      (by omega) (endsNumber_cons _ (by decide)), skip_cons rfl]
    exact congrArg (· >>= fun (members, rest) ↦ some (member :: members, rest)) hrest

theorem items?_bracket (fuel depth : Nat) (rest : List Char) :
    items? fuel depth (']' :: rest) = none := by
  cases fuel with
  | zero => rfl
  | succ fuel =>
    have hvalue : value? fuel depth (']' :: rest) = none := by
      cases fuel with
      | zero => rfl
      | succ fuel =>
        rw [value?_succ, skip_cons rfl]
        rfl
    rw [items?_succ, hvalue]
    rfl

theorem members?_brace (fuel depth : Nat) (rest : List Char) :
    members? fuel depth ('\x7d' :: rest) = none := by
  cases fuel with
  | zero => rfl
  | succ fuel =>
    rw [members?_succ, skip_cons rfl]
    rfl

/-- An array is read if its items are; they do not begin with the closing bracket. -/
theorem value?_array {fuel depth : Nat} {s rest : List Char} {items : List Value}
    (hdepth : 0 < depth) (h : items? fuel depth s = some (items, rest)) :
    value? (fuel + 1) (depth + 1) ('[' :: s) = some (.array items, rest) := by
  rw [← items?_skip] at h
  rw [value?_succ, skip_cons rfl]
  simp only [show ¬depth + 1 ≤ 1 by omega, if_false, Nat.add_sub_cancel]
  split
  · next tail htail =>
    rw [htail, items?_bracket] at h
    cases h
  · rw [h]
    rfl

/-- An object is read if its members are; they do not begin with the closing brace. -/
theorem value?_object {fuel depth : Nat} {s rest : List Char} {members : List (String × Value)}
    (hdepth : 0 < depth) (h : members? fuel depth s = some (members, rest)) :
    value? (fuel + 1) (depth + 1) ('\x7b' :: s) = some (.object members, rest) := by
  rw [← members?_skip] at h
  rw [value?_succ, skip_cons rfl]
  simp only [show ¬depth + 1 ≤ 1 by omega, if_false, Nat.add_sub_cancel]
  split
  · next tail htail =>
    rw [htail, members?_brace] at h
    cases h
  · rw [h]
    rfl

/-- The text of an array is read if those of its items are. -/
theorem readsAs_array {room : Nat} (hroom : 0 < room) {items : List Value}
    {text : Value → String} (h : ∀ item ∈ items, ReadsAs room (text item) item)
    {closing : String} (hclosing : AreSpaces closing.toList) :
    ReadsAs (room + 1) ("[" ++ joined "," (items.map text) ++ closing ++ "]") (.array items) := by
  refine readsAs_of_succ fun fuel rest hfuel _ ↦ ?_
  have hopen : "[".toList = ['['] := rfl
  have hclose : "]".toList = [']'] := rfl
  simp only [String.toList_append, hopen, hclose, List.append_assoc, List.cons_append,
    List.nil_append, List.length_append, List.length_cons] at hfuel ⊢
  cases items with
  | nil =>
    have hnone : (joined "," (([] : List Value).map text)).toList = [] := rfl
    rw [hnone, List.nil_append, value?_succ, skip_cons rfl]
    simp only [show ¬room + 1 ≤ 1 by omega, if_false, skip_append hclosing,
      skip_cons (c := ']') rfl]
  | cons item items =>
    obtain ⟨fuel, rfl⟩ : ∃ less, fuel = less + 1 := ⟨fuel - 1, by omega⟩
    exact value?_array hroom (items?_joined hclosing rest item items h fuel (by omega))

/-- The text of an object is read if those of its members are. -/
theorem readsAs_object {room : Nat} (hroom : 0 < room) {members : List (String × Value)}
    {text : String × Value → String}
    (h : ∀ member ∈ members, ReadsAsMember room (text member) member)
    {closing : String} (hclosing : AreSpaces closing.toList) :
    ReadsAs (room + 1) ("\x7b" ++ joined "," (members.map text) ++ closing ++ "\x7d")
      (.object members) := by
  refine readsAs_of_succ fun fuel rest hfuel _ ↦ ?_
  have hopen : "\x7b".toList = ['\x7b'] := rfl
  have hclose : "\x7d".toList = ['\x7d'] := rfl
  simp only [String.toList_append, hopen, hclose, List.append_assoc, List.cons_append,
    List.nil_append, List.length_append, List.length_cons] at hfuel ⊢
  cases members with
  | nil =>
    have hnone : (joined "," (([] : List (String × Value)).map text)).toList = [] := rfl
    rw [hnone, List.nil_append, value?_succ, skip_cons rfl]
    simp only [show ¬room + 1 ≤ 1 by omega, if_false, skip_append hclosing,
      skip_cons (c := '\x7d') rfl]
  | cons member members =>
    obtain ⟨fuel, rfl⟩ : ∃ less, fuel = less + 1 := ⟨fuel - 1, by omega⟩
    exact value?_object hroom (members?_joined hclosing rest member members h fuel (by omega))

/-! ## Values without parts, whatever stands around them -/

theorem readsAs_null (room : Nat) : ReadsAs room Value.null.compact .null :=
  readsAs_of_succ fun fuel rest _ _ ↦ value?_null fuel room rest

theorem readsAs_bool (room : Nat) (value : Bool) :
    ReadsAs room (Value.bool value).compact (.bool value) := by
  refine readsAs_of_succ fun fuel rest _ _ ↦ ?_
  cases value
  · exact value?_bool fuel room false rest
  · exact value?_bool fuel room true rest

theorem readsAs_number (room : Nat) {literal : String} (h : IsLiteral literal) :
    ReadsAs room (Value.number literal).compact (.number literal) :=
  readsAs_of_succ fun fuel _ _ hrest ↦ value?_number fuel room h hrest

theorem readsAs_string (room : Nat) (text : String) :
    ReadsAs room (Value.string text).compact (.string text) :=
  readsAs_of_succ fun fuel rest _ _ ↦ value?_string fuel room text rest

/-! ## Compact text -/

theorem compactItems_eq_map (items : List Value) :
    compactItems items = items.map Value.compact := by
  induction items with
  | nil => rfl
  | cons item items ih => exact congrArg (item.compact :: ·) ih

theorem compactMembers_eq_map (members : List (String × Value)) :
    compactMembers members = members.map fun member ↦
      stringText member.1 ++ ":" ++ member.2.compact := by
  induction members with
  | nil => rfl
  | cons member members ih =>
    exact congrArg ((stringText member.1 ++ ":" ++ member.2.compact) :: ·) ih

/-- Whatever a value is, it is read from its compact text. -/
theorem readsAs_compact {depth : Nat} {v : Value} (h : Readable depth v) :
    ∀ room, depth < room → ReadsAs room v.compact v := by
  induction h with
  | null => exact fun room _ ↦ readsAs_null room
  | bool value => exact fun room _ ↦ readsAs_bool room value
  | number hliteral => exact fun room _ ↦ readsAs_number room hliteral
  | string text => exact fun room _ ↦ readsAs_string room text
  | @array depth items _ ih =>
    intro room hroom
    obtain ⟨room, rfl⟩ := Nat.exists_eq_succ_of_ne_zero (Nat.ne_of_gt (Nat.zero_lt_of_lt hroom))
    have hroom := Nat.lt_of_succ_lt_succ hroom
    have htext : (Value.array items).compact =
        "[" ++ joined "," (items.map Value.compact) ++ "" ++ "]" := by
      rw [← compactItems_eq_map, String.append_empty]
      rfl
    rw [htext]
    exact readsAs_array (Nat.zero_lt_of_lt hroom) (fun item hitem ↦ ih item hitem room hroom)
      areSpaces_empty
  | @object depth members _ ih =>
    intro room hroom
    obtain ⟨room, rfl⟩ := Nat.exists_eq_succ_of_ne_zero (Nat.ne_of_gt (Nat.zero_lt_of_lt hroom))
    have hroom := Nat.lt_of_succ_lt_succ hroom
    have htext : (Value.object members).compact = "\x7b" ++ joined "," (members.map fun member ↦
        stringText member.1 ++ ":" ++ member.2.compact) ++ "" ++ "\x7d" := by
      rw [← compactMembers_eq_map, String.append_empty]
      rfl
    rw [htext]
    refine readsAs_object (Nat.zero_lt_of_lt hroom) (fun member hmember ↦ ?_) areSpaces_empty
    exact ⟨"", _, areSpaces_empty, by rw [String.empty_append], ih member hmember room hroom⟩

/-! ## Indented text -/

/-- The text of an item on a line of its own. -/
def itemLine (margin : String) (item : Value) : String :=
  "\n" ++ margin ++ item.indentedFrom margin

/-- The text of a member on a line of its own. -/
def memberLine (margin : String) (member : String × Value) : String :=
  "\n" ++ margin ++ stringText member.1 ++ ": " ++ member.2.indentedFrom margin

theorem indentedItems_eq_map (margin : String) (items : List Value) :
    indentedItems margin items = items.map (itemLine margin) := by
  induction items with
  | nil => rfl
  | cons item items ih => exact congrArg (itemLine margin item :: ·) ih

theorem indentedMembers_eq_map (margin : String) (members : List (String × Value)) :
    indentedMembers margin members = members.map (memberLine margin) := by
  induction members with
  | nil => rfl
  | cons member members ih => exact congrArg (memberLine margin member :: ·) ih

/-- Only blanks stand before the closing bracket of an array. -/
theorem exists_indented_array {margin : String} (hmargin : AreSpaces margin.toList)
    (items : List Value) :
    ∃ closing : String, AreSpaces closing.toList ∧ (Value.array items).indentedFrom margin =
      "[" ++ joined "," (items.map (itemLine (margin ++ "  "))) ++ closing ++ "]" := by
  cases items with
  | nil =>
    have htext : (Value.array []).indentedFrom margin = "[]" := rfl
    refine ⟨"", areSpaces_empty, ?_⟩
    rw [htext, List.map_nil, joined_nil, String.append_empty]
    decide
  | cons item items =>
    have htext : (Value.array (item :: items)).indentedFrom margin =
        "[" ++ joined "," (indentedItems (margin ++ "  ") (item :: items)) ++ "\n" ++ margin ++
          "]" := rfl
    refine ⟨"\n" ++ margin, areSpaces_append areSpaces_newline hmargin, ?_⟩
    rw [htext, indentedItems_eq_map, ← String.append_assoc]

/-- Only blanks stand before the closing brace of an object. -/
theorem exists_indented_object {margin : String} (hmargin : AreSpaces margin.toList)
    (members : List (String × Value)) :
    ∃ closing : String, AreSpaces closing.toList ∧ (Value.object members).indentedFrom margin =
      "\x7b" ++ joined "," (members.map (memberLine (margin ++ "  "))) ++ closing ++ "\x7d" := by
  cases members with
  | nil =>
    have htext : (Value.object []).indentedFrom margin = "\x7b\x7d" := rfl
    refine ⟨"", areSpaces_empty, ?_⟩
    rw [htext, List.map_nil, joined_nil, String.append_empty]
    decide
  | cons member members =>
    have htext : (Value.object (member :: members)).indentedFrom margin =
        "\x7b" ++ joined "," (indentedMembers (margin ++ "  ") (member :: members)) ++ "\n" ++
          margin ++ "\x7d" := rfl
    refine ⟨"\n" ++ margin, areSpaces_append areSpaces_newline hmargin, ?_⟩
    rw [htext, indentedMembers_eq_map, ← String.append_assoc]

/-- Whatever a value is, it is read from its indented text. -/
theorem readsAs_indented {depth : Nat} {v : Value} (h : Readable depth v) :
    ∀ room, depth < room → ∀ margin : String, AreSpaces margin.toList →
      ReadsAs room (v.indentedFrom margin) v := by
  induction h with
  | null => exact fun room _ _ _ ↦ readsAs_null room
  | bool value => exact fun room _ _ _ ↦ readsAs_bool room value
  | number hliteral => exact fun room _ _ _ ↦ readsAs_number room hliteral
  | string text => exact fun room _ _ _ ↦ readsAs_string room text
  | @array depth items _ ih =>
    intro room hroom margin hmargin
    obtain ⟨room, rfl⟩ := Nat.exists_eq_succ_of_ne_zero (Nat.ne_of_gt (Nat.zero_lt_of_lt hroom))
    have hroom := Nat.lt_of_succ_lt_succ hroom
    have hdeeper := areSpaces_append hmargin areSpaces_indent
    obtain ⟨closing, hclosing, htext⟩ := exists_indented_array hmargin items
    rw [htext]
    refine readsAs_array (Nat.zero_lt_of_lt hroom) (fun item hitem ↦ ?_) hclosing
    exact (ih item hitem room hroom _ hdeeper).after_blanks
      (areSpaces_append areSpaces_newline hdeeper)
  | @object depth members _ ih =>
    intro room hroom margin hmargin
    obtain ⟨room, rfl⟩ := Nat.exists_eq_succ_of_ne_zero (Nat.ne_of_gt (Nat.zero_lt_of_lt hroom))
    have hroom := Nat.lt_of_succ_lt_succ hroom
    have hdeeper := areSpaces_append hmargin areSpaces_indent
    obtain ⟨closing, hclosing, htext⟩ := exists_indented_object hmargin members
    rw [htext]
    refine readsAs_object (Nat.zero_lt_of_lt hroom) (fun member hmember ↦ ?_) hclosing
    refine ⟨"\n" ++ (margin ++ "  "), " " ++ member.2.indentedFrom (margin ++ "  "),
      areSpaces_append areSpaces_newline hdeeper, ?_,
      (ih member hmember room hroom _ hdeeper).after_blanks areSpaces_blank⟩
    have hcolon : ": " = ":" ++ " " := rfl
    rw [memberLine, hcolon]
    simp only [String.append_assoc]

end Parser

/-- A text that is read as a value to its end holds that value. -/
theorem parse?_of_readsAs {text : String} {v : Value} (h : Parser.ReadsAs 128 text v) :
    parse? text = some v := by
  have hread := h (text.toList.length + 1) [] (Nat.lt_succ_self _) (fun _ hc ↦ nomatch hc)
  rw [List.append_nil] at hread
  rw [parse?]
  exact congrArg (· >>= fun (value, rest) ↦
    if (Parser.skip rest).isEmpty then some value else none) hread

/-- What is written of a value with an item a line is read as that value. -/
theorem parse?_indented {v : Value} {depth : Nat} (h : Readable depth v) (hdepth : depth < 128) :
    parse? v.indented = some v :=
  parse?_of_readsAs (Parser.readsAs_indented h 128 hdepth "" Parser.areSpaces_empty)

/-- What is written of a value without blanks is read as that value. -/
theorem parse?_compact {v : Value} {depth : Nat} (h : Readable depth v) (hdepth : depth < 128) :
    parse? v.compact = some v :=
  parse?_of_readsAs (Parser.readsAs_compact h 128 hdepth)

end Marginalia.Json
