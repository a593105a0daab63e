/-! # Pieces between separators -/

namespace BinDelegation

/-- The pieces of a list between its separators, of which there is one more than there are
separators. -/
def pieces {α : Type} [DecidableEq α] (separator : α) : List α → List (List α)
  | [] => [[]]
  | a :: rest =>
    if a = separator then [] :: pieces separator rest
    else
      match pieces separator rest with
      | [] => [[a]]
      | first :: others => (a :: first) :: others

end BinDelegation
