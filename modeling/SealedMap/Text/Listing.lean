import SealedMap.Builder
import SealedMap.Text.Shown
import SealedMap.View.Collection
import SealedMap.View.Inverse

/-!
# Texts of maps, views and builders

The plain text of a map lists its entries as `key=value`; the literal texts of
maps, views and builders list literal texts of their parts.  Everything stands
in iteration order.
-/

namespace SealedMap

namespace Text

def enclosed (opening closing : String) (items : List String) : String :=
  opening ++ ", ".intercalate items ++ closing

def inBraces (items : List String) : String :=
  enclosed "\x7b" "\x7d" items

def inBrackets (items : List String) : String :=
  enclosed "[" "]" items

def line (indent : Nat) (text : String) : String :=
  String.ofList (List.replicate indent ' ') ++ text ++ "\n"

end Text

open Text (inBraces inBrackets line)

instance [Shown K] [Shown V] : Shown (Entry K V) where
  plain entry := Shown.plain entry.key ++ "=" ++ Shown.plain entry.value
  literal entry :=
    "Entry \x7b key: " ++ Shown.literal entry.key ++ ", value: " ++
      Shown.literal entry.value ++ " \x7d"

variable {K V : Type} [BEq K] [Hashable K] [Shown K] [Shown V]

namespace Map

def association (entry : Entry K V) : String :=
  Shown.literal entry.key ++ ": " ++ Shown.literal entry.value

instance : Shown (Map K V) where
  plain map := inBraces (map.entries.toList.map Shown.plain)
  literal map := inBraces (map.entries.toList.map association)

def literalLines (map : Map K V) : String :=
  if map.isEmpty then inBraces []
  else
    "\x7b\n" ++
      String.join (map.entries.toList.map fun entry => line 4 (association entry ++ ",")) ++
      "\x7d"

end Map

namespace KeySet

def literal (view : KeySet K V) : String :=
  inBraces (view.toList.map Shown.literal)

end KeySet

namespace ValueList

def literal (view : ValueList K V) : String :=
  inBrackets (view.toList.map Shown.literal)

end ValueList

namespace EntrySet

def literal (view : EntrySet K V) : String :=
  inBraces (view.toList.map Shown.literal)

end EntrySet

namespace Multimap

def literal (view : Multimap K V) : String :=
  inBraces (view.toList.map fun (key, values) =>
    Shown.literal key ++ ": " ++ inBrackets (values.map Shown.literal))

end Multimap

namespace Inverse

variable [BEq V] [Hashable V]

def literal (inverse : Inverse K V) : String :=
  inBraces (inverse.toList.map fun (value, keys) =>
    Shown.literal value ++ ": " ++ inBrackets (keys.map Shown.literal))

end Inverse

namespace Builder

def literal (builder : Builder K V) : String :=
  "Builder \x7b entries: " ++ inBrackets (builder.entries.toList.map Shown.literal) ++
    ", ordered_by_value: " ++ toString builder.order.isSome ++ " \x7d"

def entryLines (entry : Entry K V) : String :=
  line 8 "Entry \x7b" ++
    line 12 ("key: " ++ Shown.literal entry.key ++ ",") ++
    line 12 ("value: " ++ Shown.literal entry.value ++ ",") ++
    line 8 "\x7d,"

def literalLines (builder : Builder K V) : String :=
  let entries :=
    if builder.isEmpty then line 4 "entries: [],"
    else
      line 4 "entries: [" ++
        String.join (builder.entries.toList.map entryLines) ++
        line 4 "],"
  "Builder \x7b\n" ++ entries ++
    line 4 ("ordered_by_value: " ++ toString builder.order.isSome ++ ",") ++ "\x7d"

end Builder
end SealedMap
