import WasmLisp.Text.Hex
import WasmLisp.Text.Json

/-!
Views: values of the library as JSON, for tools that show them.
-/

namespace WasmLisp

/-- Values that can be shown as JSON. -/
class View (α : Type) where
  view : α → JsonValue

export View (view)

namespace View

/-- Named values, shown as an object. -/
abbrev Fields := List (String × JsonValue)

/-- A named value. -/
def field {α : Type} [View α] (name : String) (a : α) : String × JsonValue := (name, view a)

/-- A field that is left out when its text is empty. -/
def textField (name s : String) : Fields := if s = "" then [] else [(name, .text s)]

/-- A field that is left out when its list is empty. -/
def listField {α : Type} [View α] (name : String) (xs : List α) : Fields :=
  if xs.isEmpty then [] else [(name, .array (xs.map view))]

end View

instance : View JsonValue := ⟨id⟩
instance : View String := ⟨.text⟩
instance : View Bool := ⟨.bool⟩
instance : View Nat := ⟨fun n => .number n⟩
instance : View Int := ⟨.number⟩
instance : View UInt8 := ⟨fun n => .number n.toNat⟩
instance : View UInt32 := ⟨fun n => .number n.toNat⟩

/-- Values of the language are shown as text, since a number of JSON may not hold them. -/
instance : View Int64 := ⟨fun v => .text (toString v.toInt)⟩

instance {α : Type} [View α] : View (List α) := ⟨fun xs => .array (xs.map view)⟩
instance {α : Type} [View α] : View (Option α) := ⟨fun o => (o.map view).getD .null⟩
instance {α β : Type} [View α] [View β] : View (α × β) := ⟨fun (a, b) => .array [view a, view b]⟩

instance (priority := 2000) : View View.Fields := ⟨.object⟩

/-- Bytes are shown in hexadecimal. -/
instance (priority := 2000) : View (List UInt8) := ⟨fun b => .text (Text.hexOfBytes b)⟩

end WasmLisp
