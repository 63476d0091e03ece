import Vinput.ConfigStore
import Vinput.JsonLocation

/-!
# Reading and writing single settings

A setting is named by a pointer into the tree of the stored configuration.
Setting it puts a value at that place, reads the whole tree back as a
configuration and saves it. The tree goes through a text on its way in and on
its way back. The file is there and can be read; its cache is left out, since
it only saves reading it again.
-/

namespace Vinput.ConfigRouter

open CoreConfigTypes CoreConfigJson ConfigStore JsonTree JsonLocation

section Pointers

/-- Value of a list of decimal digits. -/
def digitsValue (digits : List Char) : ℕ :=
  digits.foldl (fun value digit => value*10+(digit.toNat - '0'.toNat)) 0

/-- A whole segment of digits that a size can hold. -/
def parseIndex (segment : List Char) : Option ℕ :=
  if segment≠[] ∧ segment.all Char.isDigit=true ∧ digitsValue segment<2^64 then
    some (digitsValue segment)
  else none

/-- The step a segment stands for at a node, if there is such a child. -/
def childAt (node : Json) (segment : List Char) : Option Step :=
  match node with
  | .object members =>
    if (members.lookup (String.ofList segment)).isSome then some (.key (String.ofList segment))
    else none
  | .array elements =>
    (parseIndex segment).bind fun position =>
      if position<elements.length then some (.index position) else none
  | _ => none

/-- The segment at the front of a text and the segments after it. A tilde
stands for itself or a slash with a digit after it and for nothing else. -/
def segmentsFrom : List Char → Option (List Char×List (List Char))
  | [] => some ([],[])
  | '/'::rest => (segmentsFrom rest).map fun found => ([],found.1::found.2)
  | '~' :: '1' :: rest => (segmentsFrom rest).map fun found => ('/'::found.1,found.2)
  | '~' :: '0' :: rest => (segmentsFrom rest).map fun found => ('~'::found.1,found.2)
  | '~'::_ => none
  | current::rest => (segmentsFrom rest).map fun found => (current::found.1,found.2)

/-- The segments of a pointer. -/
def pointerSegments : List Char → Option (List (List Char))
  | [] => some []
  | '/'::rest => (segmentsFrom rest).map fun found => found.1::found.2
  | _ => none

/-- The place some segments lead to. -/
def seekSegments : Json → List (List Char) → Option Location
  | _,[] => some []
  | node,segment::rest => do
    let step ← childAt node segment
    let next ← child node step
    let below ← seekSegments next rest
    some (step::below)

/-- The place of a pointer. The source decodes a segment at a time while it
walks; a segment it cannot decode and a child it does not find both end the
walk without a node. -/
def seekPointer (root : Json) (pointer : String) : Option Location :=
  (pointerSegments pointer.toList).bind (seekSegments root)

end Pointers

section Settings

/-- The configuration a file stands for. -/
def loadCoreConfig (file : Text) : CoreConfig :=
  match coreConfigFromJson file with
  | .ok config => normalizeCoreConfig config
  | .error _ => normalizeCoreConfig {}

/-- The tree that pointers are resolved in: the configuration is written and read again. -/
def loadConfigTree (file : Text) : Option Json :=
  match writtenText (normalizeCoreConfig (loadCoreConfig file)) with
  | .tree root => some root
  | _ => none

-- The texts of single nodes have no line breaks, and a reader can go wrong close to
-- their end; what it makes of the text of a tree is given as reread.
variable (translate : String → String) (readValue : String → Option Json) (reread : Json → Text)

/-- Replace the file unless the configuration is not valid or the file
system fails. -/
def saveCoreConfig (fails : Bool) (config : CoreConfig) (file : Text) : Bool×Text :=
  match validateCoreConfig (normalizeCoreConfig config) with
  | some _ => (false,file)
  | none =>
    if fails then (false,file)
    else (true,writtenText
      (materializeBuiltinSceneLabels translate (normalizeCoreConfig config)))

/-- A text that is one JSON value is that value; any other is a string. -/
def parseSetValue (value : String) : Json := (readValue value).getD (.text value)

/-- Why a configuration was not saved. -/
def saveError (updated : CoreConfig) : String :=
  match validateCoreConfig (normalizeCoreConfig updated) with
  | some reason => if reason="" then "Failed to save config." else reason
  | none => "Failed to save config."

/-- Put a value at a pointer and save the configuration that results. -/
def setConfigValue (fails : Bool) (pointer value : String) (file : Text) :
    Except String Unit×Text :=
  match loadConfigTree file with
  | none => (.error "Failed to load config.",file)
  | some root =>
    match seekPointer root pointer with
    | none => (.error ("Config path not found: "++pointer),file)
    | some place =>
      match coreConfigFromJson (reread (replace place (parseSetValue readValue value) root)) with
      | .error reason =>
        (.error (if reason="" then "Failed to parse updated config." else reason),file)
      | .ok updated =>
        let saved := saveCoreConfig translate fails updated file
        if saved.1 then (.ok (),saved.2) else (.error (saveError updated),saved.2)

end Settings

end Vinput.ConfigRouter
