/-!
# Documents

The form of what is reported: records of named fields, lists, text, numbers and truth values.
-/

namespace ClosedCaptions

inductive Document where
  | bool (value : Bool)
  | number (value : Nat)
  | text (value : String)
  | list (items : List Document)
  | record (fields : List (String × Document))

end ClosedCaptions
