/-!
# Ascending lists

Lists in strictly ascending order of a numerical key stand for sets and for tables. Putting an
element in keeps the order and replaces an element with the same key.
-/

namespace Marginalia.Ascending

variable {α : Type}

/-- Put an element into a list that ascends by a key; an element with the same key is replaced. -/
def insert (key : α → Nat) (a : α) : List α → List α
  | [] => [a]
  | b :: rest =>
    if key a < key b then a :: b :: rest
    else if key a = key b then a :: rest
    else b :: insert key a rest

/-- The list that ascends by a key and has the elements of a list, the last one for each key. -/
def ofList (key : α → Nat) (elements : List α) : List α :=
  elements.foldl (fun sorted a ↦ insert key a sorted) []

def IsAscending (key : α → Nat) (elements : List α) : Prop :=
  elements.Pairwise fun a b ↦ key a < key b

theorem mem_insert {key : α → Nat} {a x : α} {elements : List α} :
    x ∈ insert key a elements → x = a ∨ x ∈ elements := by
  induction elements with
  | nil => simp [insert]
  | cons b rest ih =>
    rw [insert]
    split
    · simp
    · split
      · intro h
        rcases List.mem_cons.1 h with h | h
        · exact .inl h
        · exact .inr (List.mem_cons_of_mem _ h)
      · intro h
        rcases List.mem_cons.1 h with h | h
        · exact .inr (h ▸ List.mem_cons_self)
        · exact (ih h).imp_right (List.mem_cons_of_mem _)

theorem isAscending_insert {key : α → Nat} (a : α) {elements : List α}
    (h : IsAscending key elements) : IsAscending key (insert key a elements) := by
  induction elements with
  | nil => simp [insert, IsAscending]
  | cons b rest ih =>
    obtain ⟨hb, hrest⟩ := List.pairwise_cons.1 h
    rw [insert]
    split
    · rename_i hab
      refine List.pairwise_cons.2 ⟨fun x hx ↦ ?_, h⟩
      rcases List.mem_cons.1 hx with hx | hx
      · exact hx ▸ hab
      · exact Nat.lt_trans hab (hb x hx)
    · split
      · rename_i hab
        exact List.pairwise_cons.2 ⟨fun x hx ↦ hab ▸ hb x hx, hrest⟩
      · rename_i hlt hne
        refine List.pairwise_cons.2 ⟨fun x hx ↦ ?_, ih hrest⟩
        rcases mem_insert hx with hx | hx
        · subst hx
          omega
        · exact hb x hx

theorem isAscending_ofList (key : α → Nat) (elements : List α) :
    IsAscending key (ofList key elements) := by
  have general : ∀ sorted : List α, IsAscending key sorted →
      IsAscending key (elements.foldl (fun sorted a ↦ insert key a sorted) sorted) := by
    induction elements with
    | nil => exact fun _ h ↦ h
    | cons a rest ih => exact fun sorted h ↦ ih _ (isAscending_insert a h)
  exact general [] List.Pairwise.nil

/-- Where no two elements have the same key, none is replaced. -/
theorem mem_insert_iff {key : α → Nat} (hkey : ∀ a b, key a = key b → a = b) {a x : α}
    {elements : List α} : x ∈ insert key a elements ↔ x = a ∨ x ∈ elements := by
  refine ⟨mem_insert, ?_⟩
  induction elements with
  | nil => simp [insert]
  | cons b rest ih =>
    intro h
    rw [insert]
    split
    · exact List.mem_cons.2 h
    · split
      · rename_i hsame
        obtain rfl := hkey a b hsame
        rcases h with h | h
        · exact h ▸ List.mem_cons_self
        · exact h
      · rcases h with h | h
        · exact List.mem_cons_of_mem _ (ih (.inl h))
        · rcases List.mem_cons.1 h with h | h
          · exact h ▸ List.mem_cons_self
          · exact List.mem_cons_of_mem _ (ih (.inr h))

theorem mem_ofList_iff {key : α → Nat} (hkey : ∀ a b, key a = key b → a = b) {x : α}
    {elements : List α} : x ∈ ofList key elements ↔ x ∈ elements := by
  have general : ∀ sorted : List α,
      x ∈ elements.foldl (fun sorted a ↦ insert key a sorted) sorted ↔
        x ∈ sorted ∨ x ∈ elements := by
    induction elements with
    | nil => simp
    | cons a rest ih =>
      intro sorted
      rw [List.foldl_cons, ih, mem_insert_iff hkey, List.mem_cons, or_comm (a := x = a), or_assoc]
  exact (general []).trans (by simp)

theorem lookup_cons {β : Type} (key : Nat) (b : β) (entries : List (Nat × β)) (other : Nat) :
    ((key, b) :: entries).lookup other =
      if other = key then some b else entries.lookup other := by
  by_cases h : other = key
  · simp [h]
  · rw [List.lookup_cons, beq_eq_false_iff_ne.2 h, if_neg h]

/-- In a table a new entry is found under its key, and every other one as before. -/
theorem lookup_insert {β : Type} (key : Nat) (b : β) (entries : List (Nat × β)) (other : Nat) :
    (insert Prod.fst (key, b) entries).lookup other =
      if other = key then some b else entries.lookup other := by
  induction entries with
  | nil => exact lookup_cons key b [] other
  | cons entry rest ih =>
    obtain ⟨k, c⟩ := entry
    rw [insert]
    split
    · exact lookup_cons key b _ other
    · split
      · rename_i hsame
        have hsame : key = k := hsame
        by_cases h : other = key
        · rw [lookup_cons, if_pos h, if_pos h]
        · rw [lookup_cons, lookup_cons, if_neg h, if_neg h, if_neg (hsame ▸ h)]
      · rename_i hne
        have hne : key ≠ k := hne
        by_cases h : other = k
        · have hother : other ≠ key := fun heq ↦ hne (heq.symm.trans h)
          rw [lookup_cons, lookup_cons, if_pos h, if_pos h, if_neg hother]
        · rw [lookup_cons, lookup_cons, if_neg h, if_neg h, ih]

end Marginalia.Ascending
