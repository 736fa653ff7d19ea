/-! What holds of every member of a list is decided by going through the list. For types with finitely many
    values there is another way, through all values of the type; it must not be taken. -/

namespace OneMail

instance (priority := 1100) decidableForallMem {α : Type} (p : α → Prop) [DecidablePred p] (l : List α) :
    Decidable (∀ x ∈ l, p x) := List.decidableBAll p l

end OneMail
