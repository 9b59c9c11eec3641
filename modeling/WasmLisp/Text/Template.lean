import WasmLisp.Text.Quoted

/-!
Message templates: a percent sign and a letter stand for the next argument, all of which are
texts. What does not fit together shows in the output instead of failing.
-/

namespace WasmLisp.Text

/-- How a text shows where a template asks for it by the given letter, or `none` if the letter
does not apply to texts. -/
def showArgument? (verb : Char) (arg : String) : Option String :=
  if verb = 's' || verb = 'v' then some arg
  else if verb = 'q' then some (quoted arg)
  else if verb = 'x' then some (hexOfBytes arg.toUTF8.toList)
  else if verb = 'X' then some ((hexOfBytes arg.toUTF8.toList).map Char.toUpper)
  else none

/-- The template with its arguments filled in, character by character. -/
def fillChars : List Char → List String → List Char
  | [], [] => []
  | [], extra =>
    ("%!(EXTRA " ++ ", ".intercalate (extra.map ("string=" ++ ·)) ++ ")").toList
  | '%' :: '%' :: rest, args => '%' :: fillChars rest args
  | ['%'], args => "%!(NOVERB)".toList ++ fillChars [] args
  | '%' :: verb :: rest, [] => "%!".toList ++ verb :: "(MISSING)".toList ++ fillChars rest []
  | '%' :: verb :: rest, arg :: args =>
    (match showArgument? verb arg with
      | some shown => shown.toList
      | none => "%!".toList ++ verb :: ("(string=" ++ arg ++ ")").toList) ++ fillChars rest args
  | c :: rest, args => c :: fillChars rest args

/-- A template with its arguments filled in. Without arguments the template is the text itself. -/
def fill (template : String) (args : List String) : String :=
  if args.isEmpty then template else String.ofList (fillChars template.toList args)

end WasmLisp.Text
