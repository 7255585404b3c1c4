/-!
Line ends. A carriage return, alone or before a line feed, ends a line as a line feed does.
-/

namespace ScriptLoader.Text

def unifyNewlines : List Char → List Char
  | [] => []
  | '\r' :: '\n' :: rest => '\n' :: unifyNewlines rest
  | c :: rest => (if c = '\r' then '\n' else c) :: unifyNewlines rest

end ScriptLoader.Text
