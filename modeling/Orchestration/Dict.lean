/-!
# Named entries

A `Dict` binds names to entries and remembers the order in which the names were
first bound. Binding a name again keeps its place and replaces its entry.
Lookup sees the first entry of a name, and the operations below never bind a
name twice.
-/

set_option autoImplicit false

namespace Orchestration

abbrev Dict (α : Type) := List (String × α)

namespace Dict

variable {α : Type}

def get? (d : Dict α) (name : String) : Option α := List.lookup name d

def contains (d : Dict α) (name : String) : Bool := (get? d name).isSome

def names (d : Dict α) : List String := d.map Prod.fst

def insert : Dict α → String → α → Dict α
  | [], name, a => [(name, a)]
  | (k, b) :: d, name, a => if k = name then (name, a) :: d else (k, b) :: insert d name a

def erase (d : Dict α) (name : String) : Dict α := List.filter (fun e => e.1 ≠ name) d

/-- Inserts the entries of `e` into `d` in their order, so an entry of `e` wins. -/
def merge (d e : Dict α) : Dict α := List.foldl (fun d e => insert d e.1 e.2) d e

@[simp] theorem get?_nil (name : String) : get? ([] : Dict α) name = none := rfl

theorem get?_cons (k : String) (a : α) (d : Dict α) (name : String) :
    get? ((k, a) :: d) name = if k = name then some a else get? d name := by
  by_cases h : k = name
  · subst h; simp [get?]
  · have : (name == k) = false := by simpa using fun e => h e.symm
    simp [get?, List.lookup_cons, h, this]

theorem get?_insert (d : Dict α) (k : String) (a : α) (name : String) :
    get? (insert d k a) name = if k = name then some a else get? d name := by
  induction d with
  | nil => simp [insert, get?_cons]
  | cons e d ih =>
    obtain ⟨k', b⟩ := e
    by_cases h : k' = k
    · subst h; by_cases h' : k' = name <;> simp [insert, get?_cons, h']
    · by_cases h' : k' = name
      · subst h'; simp [insert, get?_cons, h, Ne.symm h]
      · simp [insert, get?_cons, h, h', ih]

@[simp] theorem erase_nil (k : String) : erase ([] : Dict α) k = [] := rfl

theorem erase_cons (k' : String) (a : α) (d : Dict α) (k : String) :
    erase ((k', a) :: d) k = if k' = k then erase d k else (k', a) :: erase d k := by
  by_cases h : k' = k <;> simp [erase, h]

theorem get?_erase (d : Dict α) (k name : String) :
    get? (erase d k) name = if k = name then none else get? d name := by
  induction d with
  | nil => simp
  | cons e d ih =>
    obtain ⟨k', b⟩ := e
    rw [erase_cons]
    by_cases h : k' = k
    · subst h; by_cases h' : k' = name <;> simp_all [get?_cons]
    · by_cases h' : k' = name
      · subst h'; simp [h, Ne.symm h, get?_cons]
      · simp [h, h', ih, get?_cons]

theorem get?_isSome_iff (d : Dict α) (name : String) :
    (get? d name).isSome = true ↔ name ∈ names d := by
  induction d with
  | nil => simp [names]
  | cons e d ih =>
    obtain ⟨k, b⟩ := e
    rw [get?_cons]
    by_cases h : k = name
    · simp [h, names]
    · simpa [h, Ne.symm h, names] using ih

theorem insert_insert (d : Dict α) (k : String) (a b : α) :
    insert (insert d k a) k b = insert d k b := by
  induction d with
  | nil => simp [insert]
  | cons e d ih =>
    obtain ⟨k', c⟩ := e
    by_cases h : k' = k <;> simp [insert, h, ih]

theorem insert_comm_of_mem (d : Dict α) {k k' : String} (a b : α) (bound : k ∈ names d)
    (other : k ≠ k') : insert (insert d k' b) k a = insert (insert d k a) k' b := by
  induction d with
  | nil => simp [names] at bound
  | cons e d ih =>
    obtain ⟨j, c⟩ := e
    by_cases h : j = k
    · subst h
      simp [insert, other]
    · by_cases h' : j = k'
      · subst h'
        simp [insert, h]
      · have inner : k ∈ names d := by simpa [names, Ne.symm h] using bound
        simp [insert, h, h', ih inner]

theorem mem_names_insert (d : Dict α) (k : String) (a : α) (name : String) :
    name ∈ names (insert d k a) ↔ name = k ∨ name ∈ names d := by
  rw [← get?_isSome_iff, get?_insert, ← get?_isSome_iff]
  by_cases h : k = name
  · simp [h]
  · simp [h, Ne.symm h]

theorem nodup_insert {d : Dict α} (distinct : (names d).Nodup) (k : String) (a : α) :
    (names (insert d k a)).Nodup := by
  induction d with
  | nil => simp [insert, names]
  | cons e d ih =>
    obtain ⟨k', b⟩ := e
    obtain ⟨fresh, rest⟩ := List.nodup_cons.mp distinct
    by_cases h : k' = k
    · subst h
      simpa [insert, names] using distinct
    · rw [insert, if_neg h]
      refine List.nodup_cons.mpr ⟨?_, ih rest⟩
      intro again
      rcases (mem_names_insert d k a k').mp again with same | inner
      · exact h same
      · exact fresh inner

@[simp] theorem merge_nil (d : Dict α) : merge d [] = d := rfl

theorem merge_cons (d : Dict α) (k : String) (a : α) (e : Dict α) :
    merge d ((k, a) :: e) = merge (insert d k a) e := rfl

theorem merge_insert_of_mem (d e : Dict α) {k : String} (a : α) (bound : k ∈ names d)
    (fresh : k ∉ names e) : merge (insert d k a) e = insert (merge d e) k a := by
  induction e generalizing d with
  | nil => rfl
  | cons x e ih =>
    obtain ⟨k', b⟩ := x
    obtain ⟨other, rest⟩ : k ≠ k' ∧ k ∉ names e := by simpa [names] using fresh
    rw [merge_cons, merge_cons, ← insert_comm_of_mem d a b bound other]
    exact ih _ ((mem_names_insert d k' b k).mpr (.inr bound)) rest

theorem merge_insert (d : Dict α) {e : Dict α} (distinct : (names e).Nodup) (k : String) (a : α) :
    merge d (insert e k a) = insert (merge d e) k a := by
  induction e generalizing d with
  | nil => rfl
  | cons x e ih =>
    obtain ⟨k', b⟩ := x
    obtain ⟨fresh, rest⟩ := List.nodup_cons.mp distinct
    by_cases h : k' = k
    · subst h
      have bound : k' ∈ names (insert d k' b) := (mem_names_insert d k' b k').mpr (.inl rfl)
      rw [insert, if_pos rfl, merge_cons, merge_cons, ← merge_insert_of_mem _ e a bound fresh,
        insert_insert]
    · rw [insert, if_neg h, merge_cons, merge_cons, ih _ rest]

theorem nodup_merge {d : Dict α} (distinct : (names d).Nodup) (e : Dict α) :
    (names (merge d e)).Nodup := by
  induction e generalizing d with
  | nil => exact distinct
  | cons x e ih => exact ih (nodup_insert distinct x.1 x.2)

theorem merge_merge (d : Dict α) {e : Dict α} (distinct : (names e).Nodup) (f : Dict α) :
    merge d (merge e f) = merge (merge d e) f := by
  induction f generalizing e with
  | nil => rfl
  | cons x f ih =>
    obtain ⟨k, a⟩ := x
    rw [merge_cons, merge_cons, ih (nodup_insert distinct k a), merge_insert d distinct]

theorem get?_merge (d : Dict α) {e : Dict α} (distinct : (names e).Nodup) (name : String) :
    get? (merge d e) name = (get? e name).or (get? d name) := by
  induction e generalizing d with
  | nil => simp
  | cons x e ih =>
    obtain ⟨k, a⟩ := x
    obtain ⟨fresh, rest⟩ := List.nodup_cons.mp distinct
    rw [merge_cons, ih _ rest, get?_insert, get?_cons]
    by_cases h : k = name
    · subst h
      have none : get? e k = none := by
        rw [← Option.not_isSome_iff_eq_none, get?_isSome_iff]
        exact fresh
      simp [none]
    · simp [h]

end Dict

end Orchestration
