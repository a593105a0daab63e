/-! # Role names

Roles are stored in files of their name, so names use a flat alphabet and do not begin with a dot.
-/

namespace BinDelegation.RoleName

/-- Whether a character may occur in a role name. -/
def allows (c : Char) : Bool :=
  ('a' ≤ c && c ≤ 'z') || ('A' ≤ c && c ≤ 'Z') || ('0' ≤ c && c ≤ '9')
    || c == '-' || c == '_' || c == '.'

/-- Whether a text can be used as a role name. -/
def isValid (role : String) : Bool :=
  match role.toList with
  | [] => false
  | first :: rest => first != '.' && (first :: rest).all allows

end BinDelegation.RoleName
