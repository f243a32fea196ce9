import Unpacking.Report.Delivery

/-!
What the command line asks for. The arguments become items, and the items are followed one after
the other: the first one that is wrong refuses the whole line, and a wish for help or for the
version is granted at once.
-/

namespace Unpacking.Command

open Text

/-- What a run is asked to do. -/
structure Arguments where
  input : Text
  output : Text
  blacklist : Option Text := none
  settingsFile : Option Text := none
  threads : Option Nat := none
  timeoutSeconds : Option Nat := none
  decompilerPath : Option Text := none
  format : Report.Format := .terminal
  skipSynthesis : Bool := false
deriving DecidableEq, Repr

/-- What a command line asks for. -/
inductive Request where
  | help
  | version
  | run (arguments : Arguments)
deriving DecidableEq, Repr

/-- An option with a value. -/
inductive Setting where
  | blacklist
  | settingsFile
  | threads
  | timeoutSeconds
  | decompilerPath
  | format
deriving DecidableEq, Repr

/-- An option without a value. -/
inductive Flag where
  | skipSynthesis
  | verbose
  | quiet
  | help
  | version
deriving DecidableEq, Repr

/-- An option of either kind. -/
inductive Switch where
  | setting (setting : Setting)
  | flag (flag : Flag)
deriving DecidableEq, Repr

/-- The long names of options. -/
def longNames : List (Text × Switch) :=
  [("blacklist", .setting .blacklist), ("config", .setting .settingsFile),
    ("threads", .setting .threads), ("timeout-secs", .setting .timeoutSeconds),
    ("jadx", .setting .decompilerPath), ("format", .setting .format),
    ("no-synthesis", .flag .skipSynthesis), ("verbose", .flag .verbose), ("quiet", .flag .quiet),
    ("help", .flag .help), ("version", .flag .version)]

/-- The letters of options. -/
def letters : List (Char × Switch) :=
  [('b', .setting .blacklist), ('c', .setting .settingsFile), ('t', .setting .threads),
    ('f', .setting .format), ('v', .flag .verbose), ('q', .flag .quiet), ('h', .flag .help),
    ('V', .flag .version)]

/-- An item of a command line. -/
inductive Item where
  | place (text : Text)
  | setting (setting : Setting) (value : Text)
  | flag (flag : Flag)
  /-- Something that makes no sense. -/
  | unknown
deriving DecidableEq, Repr

/-- Whether an argument cannot be the value of an option, since it looks like an option. A lone
dash does not. -/
def looksLikeOption (argument : Text) : Bool :=
  begins "-" argument && argument != "-"

/-- The items of letters behind one dash, and the option whose value is still to come. What stands
behind the letter of an option with a value is its value; an equals sign may stand between. -/
def letterItems : Text → List Item × Option Setting
  | [] => ([], none)
  | letter :: rest =>
    match letters.lookup letter with
    | none => ([.unknown], none)
    | some (.flag flag) =>
      let (items, awaited) := letterItems rest
      (.flag flag :: items, awaited)
    | some (.setting setting) =>
      if rest.isEmpty then ([], some setting)
      else ([.setting setting ((after? "=" rest).getD rest)], none)

/-- The items of a long option, and the option whose value is still to come. -/
def longItems (option : Text) : List Item × Option Setting :=
  match cut? '=' option with
  | some (name, value) =>
    match longNames.lookup name with
    | some (.setting setting) => ([.setting setting value], none)
    | _ => ([.unknown], none)
  | none =>
    match longNames.lookup option with
    | some (.setting setting) => ([], some setting)
    | some (.flag flag) => ([.flag flag], none)
    | none => ([.unknown], none)

/-- The items of one argument, and the option whose value is still to come. -/
def argumentItems (argument : Text) : List Item × Option Setting :=
  match after? "--" argument with
  | some option => longItems option
  | none =>
    if looksLikeOption argument then letterItems (argument.drop 1) else ([.place argument], none)

/-- The items of a command line, with the option whose value comes next. Behind two lone dashes
there are only places. -/
def items : Option Setting → List Text → List Item
  | none, [] => []
  | some _, [] => [.unknown]
  | some setting, argument :: rest =>
    if looksLikeOption argument then [.unknown] else .setting setting argument :: items none rest
  | none, argument :: rest =>
    if argument == "--" then rest.map .place
    else
      let (found, awaited) := argumentItems argument
      found ++ items awaited rest

/-- A natural number below two to the power of 64. A plus sign may stand before it. -/
def number? (text : Text) : Option Nat :=
  let digits := (after? "+" text).getD text
  if digits.isEmpty || !digits.all Char.isDigit then none
  else
    let value := digits.foldl (fun value c => 10 * value + (c.toNat - '0'.toNat)) 0
    if value < Nat.pow 2 64 then some value else none

/-- A path, which cannot be empty. -/
def path? (text : Text) : Option Text :=
  if text.isEmpty then none else some text

/-- The form of a report. -/
def format? (text : Text) : Option Report.Format :=
  if text == "terminal" then some .terminal
  else if text == "json" then some .document
  else none

/-- Set an option to a value. -/
def Arguments.set (arguments : Arguments) (value : Text) : Setting → Option Arguments
  | .blacklist => (path? value).map fun path => { arguments with blacklist := some path }
  | .settingsFile => (path? value).map fun path => { arguments with settingsFile := some path }
  | .threads => (number? value).map fun count => { arguments with threads := some count }
  | .timeoutSeconds =>
    (number? value).map fun count => { arguments with timeoutSeconds := some count }
  | .decompilerPath =>
    (path? value).map fun path => { arguments with decompilerPath := some path }
  | .format => (format? value).map fun format => { arguments with format }

/-- What the items up to some place have said. -/
structure Wishes where
  places : List Text := []
  /-- The options that have been given, each of them once. -/
  given : List Switch := []
  arguments : Arguments := { input := [], output := [] }

/-- Follow the items. The two places come in order, the input before the output. -/
def follow : Wishes → List Item → Option Request
  | wishes, [] =>
    match wishes.places with
    | [input, output] => some (.run { wishes.arguments with input, output })
    | _ => none
  | _, .unknown :: _ => none
  | _, .flag .help :: _ => some .help
  | _, .flag .version :: _ => some .version
  | wishes, .flag flag :: rest =>
    if wishes.given.contains (.flag flag) then none
    else
      let skipSynthesis := wishes.arguments.skipSynthesis || flag == .skipSynthesis
      follow { wishes with
        given := .flag flag :: wishes.given
        arguments := { wishes.arguments with skipSynthesis } } rest
  | wishes, .setting setting value :: rest =>
    if wishes.given.contains (.setting setting) then none
    else
      match wishes.arguments.set value setting with
      | none => none
      | some arguments =>
        follow { wishes with given := .setting setting :: wishes.given, arguments } rest
  | wishes, .place text :: rest =>
    if text.isEmpty || wishes.places.length ≥ 2 then none
    else follow { wishes with places := wishes.places ++ [text] } rest

/-- What a command line asks for, unless it makes no sense. -/
def Request.parse? (arguments : List Text) : Option Request :=
  follow {} (items none arguments)

end Unpacking.Command
