import PartialTx.Value.Access

/-! Settings: values by key, looked up in the options that a caller passes and then in
the settings of the user. Null counts as not set. -/

namespace PartialTx

/-- The settings of the user may be of any kind; only an object can be looked up in. -/
structure Settings where
  options : List (Text × Value)
  user : Value

namespace Settings

/-- No options and no settings of the user. -/
def builtIn : Settings := { options := [], user := .object [] }

/-! ### Options -/

/-- A key and a value from something with two elements. -/
def pairOfValue (v : Value) : Except Fault (Value × Value) := do
  match ← v.elements with
  | [key, value] => return (key, value)
  | _ => throw .pairLength

/-- The text that a key is, if it is one. Lists, objects and buffers cannot be keys. -/
def keyText? (key : Value) : Except Fault (Option Text) :=
  match key with
  | .text t => .ok (some t)
  | .list _ | .object _ | .buffer _ => .error .wrongKind
  | _ => .ok none

/-- The key of an option must be a text. -/
def optionKey (key : Value) : Except Fault Text :=
  match key with
  | .text t => .ok t
  | key => .error (.optionKeyNotText key)

/-- Options given as an object or as pairs, of which a later one wins; whatever is empty or
null stands for none. All pairs are taken before the first key is checked. -/
def optionsOfValue (options : Value) : Except Fault (List (Text × Value)) :=
  if !options.truth then .ok []
  else
    match options with
    | .object members => .ok members
    | options => do
      let pairs ← (← options.elements).mapM fun item => do
        let (key, value) ← pairOfValue item
        let _ ← keyText? key
        return (key, value)
      let named ← pairs.mapM fun (key, value) => do return (← optionKey key, value)
      return named.foldl (fun members (name, value) => Value.insert name value members) []

/-- The key of the folder that holds the settings of the user. -/
def folderKey : Text := "config_dir"

/-- What the options give as the folder, null if nothing. -/
def folderIn (options : List (Text × Value)) : Value := (options.lookup folderKey).getD .null

def folder (s : Settings) : Value := folderIn s.options

/-- Settings from options and from what is known of the user; an empty value of any kind
stands for no settings. -/
def ofParts (options : List (Text × Value)) (user : Value) : Settings :=
  { options, user := if user.truth then user else .object [] }

/-! ### Look-up

Only texts are set. A key of another kind that can be one is looked up in vain. -/

/-- The value of a key among the settings of the user, or a default if the key is not there. -/
def userValue (user : Value) (key : Option Text) (otherwise : Value) : Except Fault Value :=
  match user with
  | .object members => .ok ((key.bind fun name => members.lookup name).getD otherwise)
  | _ => .error .memberMissing

/-- The value of a key: an option that is not null, else what the user has set. -/
def get (s : Settings) (key otherwise : Value) : Except Fault Value := do
  let key ← keyText? key
  match key.bind fun name => s.options.lookup name with
  | none | some .null => userValue s.user key otherwise
  | some v => return v

def isSet (s : Settings) (key : Value) : Except Fault Bool := do
  return !(← s.get key .null).isNull

end Settings

end PartialTx
