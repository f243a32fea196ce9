import Unpacking.Yaml.Token

/-!
The document of a YAML text as a tree of nodes.
-/

namespace Unpacking.Yaml

open Text

/-- A node of a document. -/
inductive Node where
  /-- A scalar; only a plain one can be more than a string. -/
  | scalar (plain : Bool) (text : Text)
  | sequence (items : List Node)
  | mapping (entries : List (Node × Node))
  /-- A reference to a node from within itself. -/
  | cycle
deriving Repr

/-- The node where nothing is written. -/
def Node.empty : Node :=
  .scalar true []

/-- What is left of the tokens, and the nodes that have names. A node that is not finished yet has
a name already. -/
structure ReaderState where
  tokens : List Token
  named : List (Text × Option Node) := []

/-- A reader takes a node off the front of the tokens, or fails. -/
abbrev Reader := StateT ReaderState Option

namespace Reader

/-- The next token, which stays. -/
def peek : Reader (Option Token) := do
  let state ← get
  pure state.tokens.head?

/-- Go past the next token. -/
def skip : Reader Unit :=
  modify fun state => { state with tokens := state.tokens.tail }

/-- Give a name to a node. -/
def bind (name : Text) (node : Option Node) : Reader Unit :=
  modify fun state => { state with named := (name, node) :: state.named }

/-- The node that a name stands for. -/
def resolved (name : Text) : Reader Node := do
  let state ← get
  match state.named.lookup name with
  | none => failure
  | some none => pure .cycle
  | some (some node) => pure node

end Reader

open Reader

/-- A reader of nodes: the first flag allows blocks, and the second one a sequence that is not
indented. -/
abbrev NodeReader := Bool → Bool → Reader Node

/-- A node, unless the next token is one that follows a node. -/
def nodeUnless (node : Reader Node) (ends : Option Token → Bool) : Reader Node := do
  if ends (← peek) then pure .empty else node

/-- The entries of a block sequence, up to its end. -/
def blockItemsUpTo (node : NodeReader) : Nat → Reader (List Node)
  | 0 => failure
  | limit + 1 => do
    match ← peek with
    | some .blockEntry =>
      skip
      let item ← nodeUnless (node true false) fun token =>
        token == some .blockEntry || token == some .blockEnd
      let items ← blockItemsUpTo node limit
      pure (item :: items)
    | some .blockEnd =>
      skip
      pure []
    | _ => failure

/-- The entries of a sequence that is indented no further than its key. -/
def indentlessItemsUpTo (node : NodeReader) : Nat → Reader (List Node)
  | 0 => failure
  | limit + 1 => do
    match ← peek with
    | some .blockEntry =>
      skip
      let item ← nodeUnless (node true false) fun token =>
        token == some .blockEntry || token == some .key || token == some .value ||
          token == some .blockEnd
      let items ← indentlessItemsUpTo node limit
      pure (item :: items)
    | _ => pure []

/-- A key or a value of a block mapping. -/
def blockPart (node : NodeReader) : Reader Node :=
  nodeUnless (node true true) fun token =>
    token == some .key || token == some .value || token == some .blockEnd

/-- The entries of a block mapping, up to its end. -/
def blockEntriesUpTo (node : NodeReader) : Nat → Reader (List (Node × Node))
  | 0 => failure
  | limit + 1 => do
    match ← peek with
    | some .key =>
      skip
      let key ← blockPart node
      let value ← (do
        if (← peek) == some .value then
          skip
          blockPart node
        else pure .empty)
      let entries ← blockEntriesUpTo node limit
      pure ((key, value) :: entries)
    | some .blockEnd =>
      skip
      pure []
    | _ => failure

/-- The value behind a key inside flow, if there is one. -/
def flowValue (node : NodeReader) (close : Token) : Reader Node := do
  if (← peek) == some .value then
    skip
    nodeUnless (node false false) fun token => token == some .flowEntry || token == some close
  else pure .empty

/-- The comma before an entry that is not the first one. -/
def separator (first : Bool) : Reader Unit := do
  if first then pure ()
  else if (← peek) == some .flowEntry then skip
  else failure

/-- The entries of a flow sequence, up to its end. A lone key with a value is a mapping. -/
def flowItemsUpTo (node : NodeReader) : Nat → Bool → Reader (List Node)
  | 0, _ => failure
  | limit + 1, first => do
    if (← peek) == some .flowSequenceEnd then
      skip
      pure []
    else
      separator first
      match ← peek with
      | some .flowSequenceEnd =>
        skip
        pure []
      | some .key =>
        skip
        let key ← nodeUnless (node false false) fun token =>
          token == some .value || token == some .flowEntry || token == some .flowSequenceEnd
        let value ← flowValue node .flowSequenceEnd
        let items ← flowItemsUpTo node limit false
        pure (.mapping [(key, value)] :: items)
      | _ =>
        let item ← node false false
        let items ← flowItemsUpTo node limit false
        pure (item :: items)

/-- The entries of a flow mapping, up to its end. A lone node is a key. -/
def flowEntriesUpTo (node : NodeReader) : Nat → Bool → Reader (List (Node × Node))
  | 0, _ => failure
  | limit + 1, first => do
    if (← peek) == some .flowMappingEnd then
      skip
      pure []
    else
      separator first
      match ← peek with
      | some .flowMappingEnd =>
        skip
        pure []
      | some .key =>
        skip
        let key ← nodeUnless (node false false) fun token =>
          token == some .value || token == some .flowEntry || token == some .flowMappingEnd
        let value ← flowValue node .flowMappingEnd
        let entries ← flowEntriesUpTo node limit false
        pure ((key, value) :: entries)
      | _ =>
        let key ← node false false
        let entries ← flowEntriesUpTo node limit false
        pure ((key, .empty) :: entries)

/-- What stands before a node: a name and a tag, in any order. -/
structure Properties where
  name : Option Text := none
  tagged : Bool := false

/-- The name and the tag before a node. -/
def properties : Reader Properties := do
  match ← peek with
  | some (.anchor name) =>
    skip
    if (← peek) == some .tag then
      skip
      pure { name := some name, tagged := true }
    else pure { name := some name }
  | some .tag =>
    skip
    match ← peek with
    | some (.anchor name) =>
      skip
      pure { name := some name, tagged := true }
    | _ => pure { tagged := true }
  | _ => pure {}

/-- The content of a node behind its properties. -/
def content (node : NodeReader) (limit : Nat) (found : Properties) (inBlock indentless : Bool) :
    Reader Node := do
  let token ← peek
  if indentless && token == some .blockEntry then
    let items ← indentlessItemsUpTo node limit
    pure (.sequence items)
  else
    match token with
    | some (.scalar plain text) =>
      skip
      pure (.scalar plain text)
    | some .flowSequenceStart =>
      skip
      let items ← flowItemsUpTo node limit true
      pure (.sequence items)
    | some .flowMappingStart =>
      skip
      let entries ← flowEntriesUpTo node limit true
      pure (.mapping entries)
    | some .blockSequenceStart =>
      if inBlock then
        skip
        let items ← blockItemsUpTo node limit
        pure (.sequence items)
      else emptyIfNamed
    | some .blockMappingStart =>
      if inBlock then
        skip
        let entries ← blockEntriesUpTo node limit
        pure (.mapping entries)
      else emptyIfNamed
    | _ => emptyIfNamed
where
  /-- Properties alone make an empty node. -/
  emptyIfNamed : Reader Node :=
    if found.name.isSome || found.tagged then pure .empty else failure

/-- A node, for nodes that are nested at most `limit` deep. -/
def nodeUpTo : Nat → NodeReader
  | 0, _, _ => failure
  | limit + 1, inBlock, indentless => do
    match ← peek with
    | some (.alias name) =>
      skip
      resolved name
    | _ =>
      let found ← properties
      match found.name with
      | none => content (nodeUpTo limit) (limit + 1) found inBlock indentless
      | some name =>
        Reader.bind name none
        let node ← content (nodeUpTo limit) (limit + 1) found inBlock indentless
        Reader.bind name (some node)
        pure node

/-- The tokens behind the directives, if no version is given twice. -/
def afterDirectives : List Token → Option (List Token)
  | .version :: rest => if rest.contains .version then none else afterDirectives rest
  | .shorthand :: rest => afterDirectives rest
  | tokens => some tokens

/-- Whether nothing but the ends of the document is left. -/
def isFinished (tokens : List Token) : Bool :=
  tokens.all (· == .documentEnd)

/-- Whether a token begins no content. -/
def endsDocument : Option Token → Bool
  | none => true
  | some .version => true
  | some .shorthand => true
  | some .documentStart => true
  | some .documentEnd => true
  | some _ => false

/-- The document that some tokens begin with, and the tokens behind it. Directives have to be
followed by the mark of the document. -/
def document (tokens : List Token) : Option (Node × List Token) := do
  let limit := tokens.length + 1
  let rest ← afterDirectives tokens
  match rest with
  | .documentStart :: rest =>
    if endsDocument rest.head? then some (.empty, rest)
    else
      let (node, state) ← nodeUpTo limit true false { tokens := rest }
      pure (node, state.tokens)
  | _ =>
    if rest.length < tokens.length then none
    else
      let (node, state) ← nodeUpTo limit true false { tokens := rest }
      pure (node, state.tokens)

/-- The single document of a YAML text. A text without tokens is an empty document. -/
def parse (text : Text) : Option Node := do
  let found ← tokens text
  if found.isEmpty then some .empty
  else
    let (node, rest) ← document found
    if isFinished rest then some node else none

end Unpacking.Yaml
