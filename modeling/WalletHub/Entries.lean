/-!
# Named entries

A list of names with what each stands for, in the order in which the names were first put. The first
entry of a name counts. `lookup_put` and `lookup_drop` say what is found after a change.

It holds what has names in a run: the subscriptions of a `World`, under the names that the user gives them, and the
channels of the currencies under folded codes.

## The model

* `Entries.put`: gives a name something else in its place, or a new name at the end.
* `Entries.drop`: takes all entries of a name away.
* `Entries.lookup_put`, `Entries.lookup_drop`: the two laws, with the library's `List.lookup` for finding.
  Nothing else is used of the order of the entries.
-/

namespace WalletHub.Entries

variable {α : Type}

/-- The entries with one put in the place of the first of the same name, or else at the end. -/
def put (name : String) (a : α) : List (String × α) → List (String × α)
  | [] => [(name, a)]
  | e :: es => if e.1 = name then (name, a) :: es else e :: put name a es

/-- The entries without those of a name. -/
def drop (name : String) (es : List (String × α)) : List (String × α) :=
  es.filter fun e => e.1 != name

theorem lookup_cons (name other : String) (a : α) (es : List (String × α)) :
    List.lookup other ((name, a) :: es) = if other = name then some a else es.lookup other := by
  by_cases h : other = name
  · simp [h]
  · simp [List.lookup_cons, h, beq_false_of_ne h]

theorem lookup_put (name other : String) (a : α) (es : List (String × α)) :
    (put name a es).lookup other = if other = name then some a else es.lookup other := by
  induction es with
  | nil => rw [put, lookup_cons]
  | cons e es ih =>
    obtain ⟨n, b⟩ := e
    rw [put]
    by_cases hn : n = name
    · rw [if_pos hn, lookup_cons, lookup_cons, hn]
      by_cases h : other = name <;> simp [h]
    · rw [if_neg hn, lookup_cons, lookup_cons, ih]
      by_cases h : other = name
      · have : other ≠ n := fun e => hn (e ▸ h)
        rw [if_neg this, if_pos h, if_pos h]
      · rw [if_neg h, if_neg h]

theorem lookup_drop (name other : String) (es : List (String × α)) :
    (drop name es).lookup other = if other = name then none else es.lookup other := by
  induction es with
  | nil => simp [drop]
  | cons e es ih =>
    obtain ⟨n, b⟩ := e
    have hd : drop name ((n, b) :: es) = if n = name then drop name es else (n, b) :: drop name es := by
      by_cases hn : n = name <;> simp [drop, hn]
    rw [hd, lookup_cons]
    by_cases hn : n = name
    · rw [if_pos hn, ih, hn]
      by_cases h : other = name <;> simp [h]
    · rw [if_neg hn, lookup_cons, ih]
      by_cases h : other = name
      · have : other ≠ n := fun e => hn (e ▸ h)
        rw [if_neg this, if_pos h, if_pos h]
      · rw [if_neg h, if_neg h]

end WalletHub.Entries
