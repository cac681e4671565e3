import DataCube.Lineage.Cache
import DataCube.Settings.Document
import DataCube.Text.Lowercase

/-!
# Settings

The settings of an evaluation: how many rows are worth sharing work on, how long lineages are
cached, and what is logged. They have defaults, over which a document is laid, and over that the
variables of the environment whose names start with `VTL_`. Values are converted to what a setting
takes: a count takes numbers, truth values and texts of either, a text takes any plain value, a
policy only its exact name.
-/

namespace DataCube

/-- The settings of an evaluation. -/
structure Settings where
  /-- The number of rows from which work is shared. Reducers that round their sums may answer
  differently for rows that are cut to be shared. -/
  parallelThreshold : Nat
  lineageCache : CachePolicy
  logFilter : String

/-- Why settings cannot be loaded. -/
inductive SettingsError where
  | malformedDocument
  | unsuitableValue (name : String)
deriving DecidableEq

namespace Settings

/-- The settings without any document or variable. -/
def defaults : Settings :=
  { parallelThreshold := 1024, lineageCache := .strong, logFilter := "warn" }

/-! ## Conversions -/

/-- The largest count. -/
def maxCount : Nat := 0xFFFFFFFFFFFFFFFF

/-- Reads an unsigned integer that may have a plus sign. -/
def readCount? (text : String) : Option Nat :=
  let digits :=
    match text.toList with
    | '+' :: rest => rest
    | cs => cs
  if digits.isEmpty || ! digits.all Char.isDigit then none
  else
    let n := natOfDigits digits
    if n ≤ maxCount then some n else none

/-- Reads a signed 64-bit integer. -/
def readInteger? (text : String) : Option Int :=
  let (negative, digits) := takeSign text.toList
  if digits.isEmpty || ! digits.all Char.isDigit then none
  else
    let n : Int := if negative then -(natOfDigits digits : Int) else natOfDigits digits
    if fitsInt64 n then some n else none

/-- The count nearest to a number, away from zero for a half. -/
def roundToCount (x : Binary64) : Nat :=
  if x.isNaN || x.isNegative then 0
  else if ! x.isFinite then maxCount
  else
    let one := Binary64.unitsPerOne
    min ((2 * x.scaled.toNat + one) / (2 * one)) maxCount

/-- The count that a setting is given as. -/
def count? : Setting → Option Nat
  | .integer i => if 0 ≤ i then some i.toNat else none
  | .boolean b => some (if b then 1 else 0)
  | .float x => some (roundToCount x)
  | .text s =>
    let word := lowercase s
    if ["true", "on", "yes"].contains word then some 1
    else if ["false", "off", "no"].contains word then some 0
    else readCount? s
  | _ => none

/-- The text that a setting is given as. -/
def text? : Setting → Option String
  | .text s => some s
  | .integer i => some i.repr
  | .boolean b => some (if b then "true" else "false")
  | .float x => some x.text
  | _ => none

/-- The policy of an exact name. -/
def policyNamed? (name : String) : Option CachePolicy :=
  if name = "strong" then some .strong else if name = "weak" then some .weak else none

/-- The policy that a setting is given as: by its name, or by a table with just that name. -/
def policy? : Setting → Option CachePolicy
  | .text s => policyNamed? s
  | .table ⟨[(name, _)]⟩ => policyNamed? name
  | _ => none

/-! ## Layers -/

/-- How the text of a variable is understood: as a truth value, an integer, a number, or itself. -/
def readVariable (text : String) : Setting :=
  let word := lowercase text
  if word = "true" then .boolean true
  else if word = "false" then .boolean false
  else
    match readInteger? text with
    | some i => .integer i
    | none =>
      match Binary64.read? text with
      | some x => .float x
      | none => .text text

/-- What the names of variables that give settings start with, in lower case. -/
def variableMark : List Char := "vtl_".toList

/-- The name that a variable gives a value for; letters count in lower case. -/
def givenName? (name : String) : Option String :=
  let cs := (lowercase name).toList
  if variableMark.isPrefixOf cs then some (String.ofList (cs.drop variableMark.length)) else none

/-- Adds what a variable gives, if its name is that of one. -/
def addVariable (given : Bindings Setting) (v : String × String) : Bindings Setting :=
  match givenName? v.1 with
  | some name => given.insert name (readVariable v.2)
  | none => given

/-- What the environment gives; the last of several variables for a name counts. -/
def ofEnvironment (environment : Bindings String) : Bindings Setting :=
  environment.entries.foldl addVariable .empty

/-- The value of a setting, the default where nothing is given. -/
def choose {α : Type} (name : String) (default : α) (convert : Setting → Option α)
    (given : Setting) : Except SettingsError α :=
  match given.get? name with
  | none => .ok default
  | some v =>
    match convert v with
    | some x => .ok x
    | none => .error (.unsuitableValue name)

/-- What sources give, the later ones laid over the earlier ones. -/
def given (sources : List (Bindings Setting)) : Setting :=
  sources.foldl (fun s source => s.layer source) (.table .empty)

/-- The settings that sources give. -/
def ofSources (sources : List (Bindings Setting)) : Except SettingsError Settings := do
  let given := given sources
  pure {
    parallelThreshold := ← choose "parallel_threshold" defaults.parallelThreshold count? given
    lineageCache := ← choose "lineage_cache" defaults.lineageCache policy? given
    logFilter := ← choose "log_filter" defaults.logFilter text? given }

/-- Reads a document as a source. -/
def readSource (text : String) : Except SettingsError (Bindings Setting) :=
  match readSettings? text with
  | some source => .ok source
  | none => .error .malformedDocument

/-- The settings of a document alone. -/
def ofText (text : String) : Except SettingsError Settings := do
  ofSources [← readSource text]

/-- What a file gives; nothing if there is none. A byte order mark at its start is not part of its
document. -/
def readFile : Option String → Except SettingsError (Bindings Setting)
  | none => .ok .empty
  | some text => readSource (String.ofList (SettingsText.skipMark text.toList))

/-- Loads the settings from a file, if there is one, and the environment. -/
def load (file : Option String) (environment : Bindings String) :
    Except SettingsError Settings := do
  ofSources [← readFile file, ofEnvironment environment]

end Settings

end DataCube
