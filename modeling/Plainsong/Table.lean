/- Tables of pairs in the order in which their keys were first put. -/
namespace Plainsong

abbrev Table (α β : Type) := List (α × β)

namespace Table

variable {α β : Type} [DecidableEq α]

def find? (key : α) : Table α β → Option β
  | [] => none
  | (k, v) :: rest => if k = key then some v else find? key rest

def holds (key : α) (t : Table α β) : Bool := (find? key t).isSome

def put (key : α) (value : β) : Table α β → Table α β
  | [] => [(key, value)]
  | (k, v) :: rest => if k = key then (k, value) :: rest else (k, v) :: put key value rest

def erase (key : α) : Table α β → Table α β
  | [] => []
  | (k, v) :: rest => if k = key then rest else (k, v) :: erase key rest

theorem mem_of_find? {key : α} {value : β} {t : Table α β} (h : find? key t = some value) : (key, value) ∈ t := by
  induction t with
  | nil => cases h
  | cons p rest ih =>
    obtain ⟨k, v⟩ := p
    rw [find?] at h
    split at h
    next hk =>
      cases h
      exact hk ▸ List.mem_cons_self
    next => exact List.mem_cons_of_mem _ (ih h)

/-- A key that was put has its value. -/
theorem find?_put_self (key : α) (value : β) (t : Table α β) : find? key (put key value t) = some value := by
  induction t with
  | nil => simp [put, find?]
  | cons p rest ih =>
    obtain ⟨k, v⟩ := p
    by_cases h : k = key <;> simp [put, find?, h, ih]

/-- Other keys keep their values. -/
theorem find?_put_of_ne {key other : α} (value : β) (t : Table α β) (h : key ≠ other) :
    find? other (put key value t) = find? other t := by
  induction t with
  | nil => simp [put, find?, h]
  | cons p rest ih =>
    obtain ⟨k, v⟩ := p
    by_cases hk : k = key
    · subst hk
      simp [put, find?, h]
    · by_cases ho : k = other
      · subst ho
        simp [put, find?, hk]
      · simp [put, find?, hk, ho, ih]

end Table

end Plainsong
